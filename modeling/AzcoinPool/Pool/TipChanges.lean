import AzcoinPool.Pool.Steps

/-!
# Changes of the chain tip

A change of the chain tip passes two detectors: the poller broadcasts a job with another id or
height than the last one, and a session notifies its miner of a job with another id than the last
one. Ids are heights, so what both see is a change of height. In a run every change of tip reaches
the miners just when every change of tip is a change of height (`reachesMiners_iff`).
-/

namespace AzcoinPool

variable {env : PoolEnv} {parseJson : String → Option Sv1Request}

/-! ## The two detectors -/

/-- What the poller knows of the last job it broadcast. -/
structure Poller.Facts (env : PoolEnv) (p : Poller) : Prop where
  mapped : ∀ job ∈ p.broadcast.getLast?, env.IsMapped job
  lastJobId : p.lastJobId = ((p.broadcast.getLast?).map (·.jobId)).getD ""
  lastHeight : ∀ job ∈ p.broadcast.getLast?, p.lastHeight = job.height

theorem pollerFacts_of_runsTo {Ok : Pool → Event → Prop} {es : List Event} {p : Pool}
    (h : (poolMachine env parseJson).RunsTo Ok es p) : p.poller.Facts env := by
  refine h.invariant (fun p => p.poller.Facts env) ?_ ?_
  · exact ⟨by simp [poolMachine], rfl, by simp [poolMachine]⟩
  · intro p e p' hfacts _ hstep
    cases Pool.step_cases hstep with
    | pollNew current new =>
      refine ⟨?_, by simp [Poller.send], by simp [Poller.send]⟩
      intro job hjob
      obtain rfl : _ = job := by simpa [Poller.send] using hjob
      exact PoolEnv.isMapped_of_currentJob current
    | _ => exact hfacts

/-- The poller sees a change of height. -/
theorem Poller.isNew_iff {p : Poller} {job : Job} (hfacts : p.Facts env) (hjob : env.IsMapped job) :
    p.isNew job = true ↔ ∀ last ∈ p.broadcast.getLast?, job.height ≠ last.height := by
  cases hlast : p.broadcast.getLast? with
  | none =>
    have hne : job.jobId ≠ p.lastJobId := by
      rw [hfacts.lastJobId, hlast, hjob.jobId_eq]
      exact Nat.repr_ne_empty
    simp [isNew, hne]
  | some last =>
    have hid : p.lastJobId = last.jobId := by rw [hfacts.lastJobId, hlast]; rfl
    have hiff := hjob.jobId_eq_iff (hfacts.mapped last hlast)
    simp [isNew, hid, hfacts.lastHeight last hlast, hiff]

/-- A turn of the poller with a job broadcasts it just when it is new. -/
theorem Pool.poll_broadcasts_iff (p : Pool) (job : Job) :
    ((p.poll (some job)).poller.broadcast = p.poller.broadcast ++ [job] ∧
      (p.poll (some job)).sessions = broadcast p.sessions job) ↔ p.poller.isNew job = true := by
  cases hnew : p.poller.isNew job with
  | true => simp [poll, hnew, Poller.send]
  | false => simp [poll, hnew]

/-- A session of an authorized worker notifies it of a job it receives just when the height changes.
-/
theorem Session.pollRecv_pc {shared shared' : Shared} {x x' : Session} {job : Job}
    {receiver : Receiver} (hfacts : x.JobFacts env)
    (hrecv : x.receiver.recv = some (.job job, receiver))
    (hworker : x.state.authorizedWorker ≠ none)
    (hstep : x.step env parseJson shared .pollRecv = some (shared', x')) :
    x'.pc = .writing (notifyLines env job).1 [(notifyLines env job).2] (some job) ↔
      ∀ last ∈ x.notified.getLast?, job.height ≠ last.height := by
  have hmapped := hfacts.queue job ((Receiver.recv_eq_some hrecv).1 job rfl)
  have hsome : x.state.authorizedWorker.isNone = false := by
    rw [Option.isNone_eq_false_iff]
    exact Option.isSome_iff_ne_none.mpr hworker
  simp only [step] at hstep
  split at hstep
  · next hpc =>
    simp only [pollRecv, hrecv, Option.map_some, Option.some.injEq, Prod.mk.injEq, onBroadcast,
      hsome, hfacts.lastNotify, Bool.false_eq_true, if_false] at hstep
    obtain ⟨-, rfl⟩ := hstep
    cases hlast : x.notified.getLast? with
    | none => simp
    | some last =>
      have hiff := hmapped.jobId_eq_iff (hfacts.notified last (List.mem_of_getLast? hlast))
      by_cases hheight : job.height = last.height
      · simp [hheight, hpc, (hiff.mpr hheight).symm]
      · have hid : last.jobId ≠ job.jobId := fun h => hheight (hiff.mp h.symm)
        simp [hheight, hid]
  · cases hstep

/-- A detector of height changes sees the changes of parent that come with one. -/
theorem detects_iff {fires : Prop} {job : Job} {last? : Option Job}
    (h : fires ↔ ∀ last ∈ last?, job.height ≠ last.height) :
    ((∀ last ∈ last?, job.prevHash ≠ last.prevHash) → fires) ↔
      ∀ last ∈ last?, job.prevHash ≠ last.prevHash → job.height ≠ last.height := by
  rw [h]
  cases last? <;> simp

/-! ## Runs -/

/-- The job `recv` hands out next. -/
def Receiver.nextJob (r : Receiver) : Option Job :=
  match r.recv with
  | some (.job job, _) => some job
  | _ => none

/-- A job on another parent than the last one is broadcast by the poller that gets it, and its
`mining.notify` is written by the session of an authorized worker that receives it. -/
def ReachesMiners (env : PoolEnv) (parseJson : String → Option Sv1Request) (p : Pool) (e : Event) :
    Prop :=
  ∀ p' ∈ p.step env parseJson e,
    match e with
    | .poll template =>
      ∀ job ∈ env.currentJob template,
        (∀ last ∈ p.poller.broadcast.getLast?, job.prevHash ≠ last.prevHash) →
          p'.poller.broadcast = p.poller.broadcast ++ [job] ∧
            p'.sessions = Pool.broadcast p.sessions job
    | .session s .pollRecv =>
      ∀ x ∈ p.sessions[s]?, ∀ job ∈ x.receiver.nextJob, x.state.authorizedWorker ≠ none →
        (∀ last ∈ x.notified.getLast?, job.prevHash ≠ last.prevHash) →
          ∃ x' ∈ p'.sessions[s]?, x'.pc =
            .writing (notifyLines env job).1 [(notifyLines env job).2] (some job)
    | _ => True

/-- A job on another parent than the last one, of the poller or of a session of an authorized
worker, has another height. -/
def TipChangesHeight (env : PoolEnv) (p : Pool) : Event → Prop
  | .poll template =>
    ∀ job ∈ env.currentJob template, ∀ last ∈ p.poller.broadcast.getLast?,
      job.prevHash ≠ last.prevHash → job.height ≠ last.height
  | .session s .pollRecv =>
    ∀ x ∈ p.sessions[s]?, ∀ job ∈ x.receiver.nextJob, x.state.authorizedWorker ≠ none →
      ∀ last ∈ x.notified.getLast?, job.prevHash ≠ last.prevHash → job.height ≠ last.height
  | _ => True

theorem reachesMiners_poll_iff {p : Pool} {template : Except PoolError (Option BlockTemplate)}
    (hfacts : p.poller.Facts env) :
    ReachesMiners env parseJson p (.poll template) ↔ TipChangesHeight env p (.poll template) := by
  simp only [ReachesMiners, TipChangesHeight, Pool.step, Option.mem_def, Option.some.injEq,
    forall_eq']
  cases hcurrent : env.currentJob template with
  | none => simp
  | some job =>
    have hmapped := PoolEnv.isMapped_of_currentJob hcurrent
    have hdetects := (p.poll_broadcasts_iff job).trans (Poller.isNew_iff hfacts hmapped)
    simpa only [Option.mem_def, Option.some.injEq, forall_eq'] using detects_iff hdetects

theorem Receiver.nextJob_eq_some {r : Receiver} {job : Job} :
    r.nextJob = some job ↔ ∃ r', r.recv = some (.job job, r') := by
  unfold nextJob
  split
  · next job' r' hrecv => simp [hrecv]
  · next hne =>
    simp only [reduceCtorEq, false_iff, not_exists]
    exact fun r' hrecv => hne job r' hrecv

theorem reachesMiners_recv_iff {p p' : Pool} {s : Nat}
    (hfacts : ∀ {x : Session}, p.sessions[s]? = some x → x.JobFacts env)
    (hstep : p.step env parseJson (.session s .pollRecv) = some p') :
    ReachesMiners env parseJson p (.session s .pollRecv) ↔
      TipChangesHeight env p (.session s .pollRecv) := by
  simp only [ReachesMiners, TipChangesHeight, hstep, Option.mem_def, Option.some.injEq, forall_eq']
  simp only [Pool.step] at hstep
  split at hstep
  · cases hstep
  · next x hx =>
    simp only [hx, Option.some.injEq, forall_eq']
    obtain ⟨⟨shared, x'⟩, hsession, rfl⟩ := Option.map_eq_some_iff.mp hstep
    have hset : (p.sessions.set s x')[s]? = some x' := by
      rw [List.getElem?_set_self (List.getElem?_eq_some_iff.mp hx).1]
    simp only [hset, Option.some.injEq, exists_eq_left']
    refine forall_congr' fun job => forall_congr' fun hjob => forall_congr' fun hworker => ?_
    obtain ⟨receiver, hrecv⟩ := Receiver.nextJob_eq_some.mp hjob
    exact detects_iff (Session.pollRecv_pc (hfacts hx) hrecv hworker hsession)

/-- In a run every change of tip reaches the miners just when every change of tip is a change of
height. -/
theorem reachesMiners_iff {es : List Event} {p : Pool} :
    (poolMachine env parseJson).RunsTo (ReachesMiners env parseJson) es p ↔
      (poolMachine env parseJson).RunsTo (TipChangesHeight env) es p := by
  have hstep : ∀ {Ok : Pool → Event → Prop} {es : List Event} {p p' : Pool} {e : Event},
      (poolMachine env parseJson).RunsTo Ok es p → p.step env parseJson e = some p' →
        (ReachesMiners env parseJson p e ↔ TipChangesHeight env p e) := by
    intro Ok es p p' e run hstep
    cases e with
    | poll template => exact reachesMiners_poll_iff (pollerFacts_of_runsTo run)
    | connect => simp [ReachesMiners, TipChangesHeight]
    | session s e =>
      cases e with
      | pollRecv => exact reachesMiners_recv_iff (jobFacts_of_runsTo run) hstep
      | _ => simp [ReachesMiners, TipChangesHeight]
  constructor
  · exact fun h => h.imp fun run step hok => (hstep run step).mp hok
  · exact fun h => h.imp fun run step hok => (hstep run step).mpr hok

/-- A competing block at the height of the last job: the poller that has broadcast the one job does
not broadcast the other, and a session that has notified its miner of the one does not notify it of
the other. -/
theorem not_reachesMiners_fixture :
    (∃ p, (poolMachine fixtureEnv fixtureJson).run [.poll (.ok (some (fixtureTemplate [])))] =
        some p ∧
      ¬ReachesMiners fixtureEnv fixtureJson p (.poll (.ok (some siblingTemplate)))) ∧
    ∃ p, (poolMachine fixtureEnv fixtureJson).run ([.connect] ++ handshake 0 (fixtureTemplate []) ++
        [.poll (.ok (some siblingTemplate))]) = some p ∧
      ¬ReachesMiners fixtureEnv fixtureJson p (.session 0 .pollRecv) := by
  constructor
  · have hany : ((poolMachine fixtureEnv fixtureJson).run
        [.poll (.ok (some (fixtureTemplate [])))]).any (fun p =>
          (fixtureEnv.currentJob (.ok (some siblingTemplate))).any fun job =>
            decide ((∀ last ∈ p.poller.broadcast.getLast?, job.prevHash ≠ last.prevHash) ∧
              p.poller.isNew job = false)) = true := by
      decide +kernel
    obtain ⟨p, hp, hany⟩ := (Option.any_eq_true _ _).mp hany
    obtain ⟨job, hjob, hprops⟩ := (Option.any_eq_true _ _).mp hany
    obtain ⟨hprev, hnew⟩ := of_decide_eq_true hprops
    refine ⟨p, hp, fun h => ?_⟩
    have hreaches := h _ rfl job hjob hprev
    rw [hjob, Pool.poll_broadcasts_iff, hnew] at hreaches
    cases hreaches
  · have hany : ((poolMachine fixtureEnv fixtureJson).run ([.connect] ++
        handshake 0 (fixtureTemplate []) ++ [.poll (.ok (some siblingTemplate))])).any (fun p =>
          (p.sessions[0]?).any fun x => x.receiver.nextJob.any fun job =>
            (p.step fixtureEnv fixtureJson (.session 0 .pollRecv)).any fun p' =>
              decide (x.state.authorizedWorker ≠ none ∧
                (∀ last ∈ x.notified.getLast?, job.prevHash ≠ last.prevHash) ∧
                ∀ x' ∈ p'.sessions[0]?, x'.pc.notifying = none)) = true := by
      decide +kernel
    obtain ⟨p, hp, hany⟩ := (Option.any_eq_true _ _).mp hany
    obtain ⟨x, hx, hany⟩ := (Option.any_eq_true _ _).mp hany
    obtain ⟨job, hjob, hany⟩ := (Option.any_eq_true _ _).mp hany
    obtain ⟨p', hp', hprops⟩ := (Option.any_eq_true _ _).mp hany
    obtain ⟨hworker, hprev, hsilent⟩ := of_decide_eq_true hprops
    refine ⟨p, hp, fun h => ?_⟩
    obtain ⟨x', hx', hpc⟩ := h p' hp' x hx job hjob hworker hprev
    have hnone := hsilent x' hx'
    rw [hpc] at hnone
    cases hnone

end AzcoinPool
