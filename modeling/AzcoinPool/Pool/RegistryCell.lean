import AzcoinPool.Pool.Credit
import AzcoinPool.Pool.JobSources

/-!
# The registry is a cell

The registry is made for up to sixty-four jobs. Every job the RPC source gives is clean, and a clean
registration empties the registry first, so over a run of the pool it is one cell for all sessions:
it holds the last job registered, by whichever session, and nothing else
(`registersInto_of_runsTo`). A share on any other job, also on the one its own miner was sent last,
is then of an unknown job (`judge_eq_unknownJob`).
-/

namespace AzcoinPool

variable {env : PoolEnv} {parseJson : String → Option Sv1Request}

/-- A cell that holds a job at most, as a registry. -/
def ActiveJobRegistry.cell : Option Job → ActiveJobRegistry
  | none => new
  | some job => ⟨fun id => if id = job.jobId then some job else none, [job.jobId]⟩

theorem ActiveJobRegistry.getJob_cell_eq_some {job? : Option Job} {id : String} {job : Job} :
    (cell job?).getJob id = some job ↔ job? = some job ∧ id = job.jobId := by
  cases job? with
  | none => simp [cell]
  | some j =>
    simp only [cell, getJob, Option.ite_none_right_eq_some, Option.some.injEq]
    constructor
    · rintro ⟨rfl, rfl⟩
      exact ⟨rfl, rfl⟩
    · rintro ⟨rfl, rfl⟩
      exact ⟨rfl, rfl⟩

/-- Registering a clean job writes the cell. -/
theorem ActiveJobRegistry.register_of_clean (r : ActiveJobRegistry) {job : Job}
    (hclean : job.cleanJobs = true) : r.register job = cell (some job) := by
  have hupdate : Function.update (fun _ => none) job.jobId (some job) =
      fun id => if id = job.jobId then some job else none := by
    funext id
    rw [Function.update_apply]
  simp [register, hclean, new, evict, cell, hupdate]

/-- The pool with the registrations of the run: the session and the job of each. -/
def registeringMachine (env : PoolEnv) (parseJson : String → Option Sv1Request) :
    Machine (Pool × List (Nat × Job)) Event :=
  (poolMachine env parseJson).track [] fun p e h => h ++ (p.registration e).toList

/-- The registry is the cell of the last registration, and of each registered job the notification
was written to the miner of the session that registered it. -/
structure Pool.RegistersInto (p : Pool) (h : List (Nat × Job)) : Prop where
  registry : p.shared.registry = .cell (h.getLast?.map Prod.snd)
  notified : ∀ r ∈ h, ∃ x, p.sessions[r.1]? = some x ∧ x.HasNotified r.2

/-- A run with its registrations is one on the RPC source. -/
theorem registeringSource_of_runsTo {es : List Event} {s : Pool × List (Nat × Job)}
    (h : (registeringMachine env parseJson).RunsTo (fun _ _ => True) es s) :
    (registeringSource env.currentJob env parseJson).RunsTo (fun _ _ => True)
      (es.map Event.sourced) s := by
  have hinit : (registeringSource env.currentJob env parseJson).init =
      (registeringMachine env parseJson).init := rfl
  refine h.map hinit fun s e s' hstep => ?_
  simp only [registeringSource, Machine.track, sourceMachine, Pool.stepFrom_sourced,
    Pool.registrationFrom_sourced]
  exact hstep

/-- A step that registers a job makes the registry its cell, and no other step changes it. -/
theorem registry_of_step {Ok : Pool → Event → Prop} {es : List Event} {p p' : Pool}
    (run : (poolMachine env parseJson).RunsTo Ok es p) {e : Event}
    (hstep : p.step env parseJson e = some p') :
    p'.shared.registry =
      (p.registration e).elim p.shared.registry fun r => .cell (some r.2) := by
  have hregistry := Pool.registry_of_stepFrom ((Pool.stepFrom_sourced p e).trans hstep)
  rw [Pool.registrationFrom_sourced] at hregistry
  rw [hregistry]
  cases hreg : p.registration e with
  | none => rfl
  | some r =>
    obtain ⟨i, job⟩ := r
    obtain ⟨-, x, get, hpc⟩ := Pool.registration_eq_some.mp hreg
    have hclean := ((jobFacts_of_runsTo run get).notifying job (by rw [hpc]; rfl)).cleanJobs
    exact ActiveJobRegistry.register_of_clean _ hclean

/-- Over every run the registry is the cell of the last registration. -/
theorem registry_eq_of_runsTo {es : List Event} {s : Pool × List (Nat × Job)}
    (h : (registeringMachine env parseJson).RunsTo (fun _ _ => True) es s) :
    s.1.shared.registry = .cell (s.2.getLast?.map Prod.snd) := by
  induction h with
  | nil => rfl
  | @snoc es s s' e run ok step ih =>
    obtain ⟨p', hstep, rfl⟩ := Option.map_eq_some_iff.mp step
    have hregistry := registry_of_step run.of_track hstep
    cases hreg : s.1.registration e with
    | none =>
      rw [hreg] at hregistry
      simpa [hreg, ih] using hregistry
    | some r =>
      rw [hreg] at hregistry
      simpa [hreg] using hregistry

/-- Every job that was registered was notified to its session's miner. -/
theorem notified_of_runsTo {es : List Event} {s : Pool × List (Nat × Job)}
    (h : (registeringMachine env parseJson).RunsTo (fun _ _ => True) es s) :
    ∀ r ∈ s.2, ∃ x, s.1.sessions[r.1]? = some x ∧ x.HasNotified r.2 :=
  (notifiedBefore_of_registeringSource (registeringSource_of_runsTo h)).registered

/-- Over every run the registry is the cell of the last registration, and what was registered was
notified. -/
theorem registersInto_of_runsTo {es : List Event} {s : Pool × List (Nat × Job)}
    (h : (registeringMachine env parseJson).RunsTo (fun _ _ => True) es s) :
    s.1.RegistersInto s.2 :=
  ⟨registry_eq_of_runsTo h, notified_of_runsTo h⟩

/-- A share of another id than that of the last job registered is of an unknown job. -/
theorem Pool.RegistersInto.judge_eq_unknownJob {p : Pool} {h : List (Nat × Job)}
    (hinto : p.RegistersInto h) {share : ShareSubmission}
    (hlast : ∀ r ∈ h.getLast?, r.2.jobId ≠ share.jobId) :
    env.shareProcessor.judge (p.shared.registry.getJob share.jobId) share =
      .unknownJob ("unknown job_id " ++ share.jobId) := by
  have hnone : p.shared.registry.getJob share.jobId = none := by
    rw [Option.eq_none_iff_forall_ne_some]
    intro job hjob
    rw [hinto.registry, ActiveJobRegistry.getJob_cell_eq_some] at hjob
    obtain ⟨hcell, hid⟩ := hjob
    obtain ⟨r, hr, rfl⟩ := Option.map_eq_some_iff.mp hcell
    exact hlast r hr hid.symm
  rw [hnone]
  rfl

/-- Two sessions register the jobs of two heights: the registry has the second one alone. -/
theorem registersInto_fixture : ∃ s,
    (registeringMachine fixtureEnv fixtureJson).run ([.connect, .connect] ++
      handshake 0 (templateAt 100) ++ handshake 1 (templateAt 101)) = some s ∧
    s.2.map (fun r => (r.1, r.2.jobId)) = [(0, "100"), (1, "101")] ∧
    s.1.shared.registry.order = ["101"] ∧ s.1.RegistersInto s.2 := by
  have hany : ((registeringMachine fixtureEnv fixtureJson).run ([.connect, .connect] ++
      handshake 0 (templateAt 100) ++ handshake 1 (templateAt 101))).any
        (fun s => decide (s.2.map (fun r => (r.1, r.2.jobId)) = [(0, "100"), (1, "101")] ∧
          s.1.shared.registry.order = ["101"])) = true := by
    decide +kernel
  obtain ⟨s, hs, hprops⟩ := (Option.any_eq_true _ _).mp hany
  obtain ⟨hjobs, horder⟩ := of_decide_eq_true hprops
  exact ⟨s, hs, hjobs, horder, registersInto_of_runsTo (Machine.runsTo_of_run hs)⟩

end AzcoinPool
