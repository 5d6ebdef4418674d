import AzcoinPool.Lib.Sequential
import AzcoinPool.Pool.Ledger
import AzcoinPool.Pool.RegistryCell

/-!
# Shares are judged one at a time

What the pool is for, as an object (`shareService`): it holds the job that was registered last, and
answers a share with the verdict on that job. The sessions of the pool register jobs and judge
shares in many steps that interleave, over a registry made for sixty-four jobs. All the same no
interleaving shows: each call has its effect in one step between its start and its return, and the
effects in their order are a legal history of the object (`linearizes_of_runsTo`). Of every session,
the shares that were passed to `on_submit` have their effects in that order, and in that order its
miner is sent the responses, each of which tells the verdict of its effect.
-/

namespace AzcoinPool

variable {env : PoolEnv} {parseJson : String → Option Sv1Request}

/-! ## The object -/

/-- The calls the sessions make. -/
inductive ServiceCall where
  | register (job : Job)
  | submit (share : ShareSubmission)

/-- The verdict on a share when a job is the one that is held. -/
def cellVerdict (env : PoolEnv) (cell : Option Job) (share : ShareSubmission) : ShareResult :=
  (rejectShape share).getD
    (env.shareProcessor.judge (cell.filter (·.jobId = share.jobId)) share)

/-- A cell for a job, with the verdicts on it. -/
def shareService (env : PoolEnv) :
    SequentialObject (Option Job) ServiceCall (Option ShareResult) where
  init := none
  apply cell
    | .register job => (some job, none)
    | .submit share => (cell, some (cellVerdict env cell share))

/-- The registry that is a cell finds the job in it. -/
theorem ActiveJobRegistry.getJob_cell (job? : Option Job) (id : String) :
    (cell job?).getJob id = job?.filter (·.jobId = id) := by
  ext job
  rw [getJob_cell_eq_some, Option.filter_eq_some_iff, decide_eq_true_eq, eq_comm (a := id)]

/-! ## Calls and effects -/

/-- The starts, effects and returns of the calls, each with its session. -/
structure ServiceCalls where
  started : List (Nat × ShareSubmission) := []
  effects : List (Nat × ServiceCall × Option ShareResult) := []
  returned : List (Nat × AnsweredShare) := []

/-- The share an effect judges, and the verdict. -/
def judgedOf : ServiceCall × Option ShareResult → Option JudgedShare
  | (.submit share, some result) => some (share, result)
  | _ => none

namespace Session

/-- The effect of a step: a share that is rejected for its shape is so when it is read, any other
share is judged where its job is looked up. -/
def effect (env : PoolEnv) (parseJson : String → Option Sv1Request) (shared : Shared)
    (x : Session) : SessionEvent → Option (ServiceCall × Option ShareResult)
  | .pollRead => (x.dispatching parseJson shared .pollRead).bind fun share =>
      (rejectShape share).map fun result => (.submit share, some result)
  | .proceed =>
    match x.pc with
    | .submitting _ (.lookup share) => some (.submit share,
        some (env.shareProcessor.judge (shared.registry.getJob share.jobId) share))
    | .registering job => some (.register job, none)
    | _ => none
  | _ => none

end Session

/-- The calls behind a step of the pool. -/
def ServiceCalls.record (env : PoolEnv) (parseJson : String → Option Sv1Request) (p : Pool)
    (e : Event) (h : ServiceCalls) : ServiceCalls :=
  match e with
  | .session i e =>
    match p.sessions[i]? with
    | none => h
    | some x => {
        started := h.started ++ (x.dispatching parseJson p.shared e).toList.map (i, ·)
        effects := h.effects ++ (x.effect env parseJson p.shared e).toList.map (i, ·)
        returned := h.returned ++ (x.answering env parseJson p.shared e).toList.map (i, ·) }
  | _ => h

/-- The pool with the calls of its sessions. -/
def serviceMachine (env : PoolEnv) (parseJson : String → Option Sv1Request) :
    Machine (Pool × ServiceCalls) Event :=
  (poolMachine env parseJson).track {} (ServiceCalls.record env parseJson)

/-- The shares that were judged, with their sessions. -/
def ServiceCalls.judged (h : ServiceCalls) : List (Nat × JudgedShare) :=
  h.effects.filterMap fun eff => (judgedOf eff.2).map (eff.1, ·)

/-! ## Calls in flight -/

/-- The call that has started and has had no effect. -/
def SessionPc.unjudged : SessionPc → List ShareSubmission
  | .submitting _ (.lookup share) => [share]
  | _ => []

/-- The call that has had its effect and has not returned. -/
def SessionPc.judged : SessionPc → List JudgedShare
  | .submitting _ stage =>
    match stage with
    | .lookup _ => []
    | .recording share result _ | .reporting share result _ => [(share, result)]
    | .relookup share _ | .fetching share _ _ | .submitting share _ _ => [(share, .block)]
  | _ => []

@[simp] theorem SessionPc.unjudged_respond (env : PoolEnv) (response : Sv1Response)
    (notify : Option Job) : (respond env response notify).unjudged = [] := by
  cases notify <;> rfl

@[simp] theorem SessionPc.judged_respond (env : PoolEnv) (response : Sv1Response)
    (notify : Option Job) : (respond env response notify).judged = [] := by
  cases notify <;> rfl

@[simp] theorem SessionPc.judged_start (id : Option Value) (share : ShareSubmission) :
    (SessionPc.submitting id (.start share)).judged =
      ((rejectShape share).map fun result => (share, result)).toList := by
  rw [SubmitStage.start]
  cases rejectShape share <;> rfl

theorem SessionPc.unjudged_start (id : Option Value) (share : ShareSubmission) :
    (SessionPc.submitting id (.start share)).unjudged =
      if (rejectShape share).isSome then [] else [share] := by
  rw [SubmitStage.start]
  cases rejectShape share <;> rfl

namespace Session

variable {shared shared' : Shared} {x x' : Session} {e : SessionEvent}

/-- The effect of a step that passes no share to `on_submit` is that of a lookup or a registration.
-/
theorem effect_of_dispatching_eq_none (h : x.dispatching parseJson shared e = none) :
    x.effect env parseJson shared e = match e with
      | .proceed =>
        match x.pc with
        | .submitting _ (.lookup share) => some (.submit share,
            some (env.shareProcessor.judge (shared.registry.getJob share.jobId) share))
        | .registering job => some (.register job, none)
        | _ => none
      | _ => none := by
  unfold effect
  split
  · rw [h]
    rfl
  · rfl
  · next hread hproceed =>
    split
    · exact absurd rfl hproceed
    · rfl

/-- A share that starts is not judged until it has its effect. -/
theorem StepTo.unjudged_eq (h : StepTo env parseJson shared x e shared' x') :
    x.pc.unjudged ++ (x.dispatching parseJson shared e).toList =
      ((x.effect env parseJson shared e).toList.filterMap judgedOf).map Prod.fst ++
        x'.pc.unjudged := by
  obtain ⟨id, share, rfl, hpc, hpc', hsome⟩ | ⟨hnone, hstart⟩ := h.dispatching_cases
  · rw [hpc, hpc', SessionPc.unjudged_start, effect, hsome]
    cases hshape : rejectShape share <;> simp [hshape, judgedOf, SessionPc.unjudged]
  · rw [effect_of_dispatching_eq_none hnone, hnone]
    cases h with
    | readSubmit pc => exact absurd rfl (hstart _ _ pc)
    | arrive | peerClose | recvLagged | recvSkip | readPending | readBlank => simp
    | readEnd pc | readInvalid pc | readDone pc | readAuthorize pc | recvNotify pc | authorized pc
    | notSubmitted pc | panicked pc | submitted pc | lookup pc | recorded pc | reported pc
    | reportedBlock pc | relookupNone pc | relookup pc | registered pc | blockSubmitted pc
    | wroteNext pc | wroteResponse pc | wroteNotify pc | writeFailed pc =>
      simp [pc, SessionPc.unjudged, finish, judgedOf]

/-- A verdict is held from its effect until the miner is told it. -/
theorem judged_eq (h : x.step env parseJson shared e = some (shared', x'))
    (hpanic : x.PanicFree env) :
    x.pc.judged.map JudgedShare.told ++
        ((x.effect env parseJson shared e).toList.filterMap judgedOf).map JudgedShare.told =
      (x.answering env parseJson shared e).toList.map AnsweredShare.told ++
        x'.pc.judged.map JudgedShare.told := by
  have hrules : StepTo env parseJson shared x e shared' x' := step_cases h
  obtain ⟨id, share, rfl, hpc, hpc', hsome⟩ | ⟨hnone, hstart⟩ := hrules.dispatching_cases
  · rw [answering_eq_none h (by simp [hpc]), hpc, hpc', SessionPc.judged_start, effect, hsome]
    cases hshape : rejectShape share <;> simp [hshape, judgedOf, SessionPc.judged]
  · rw [effect_of_dispatching_eq_none hnone]
    cases hrules with
    | readSubmit pc => exact absurd rfl (hstart _ _ pc)
    | panicked pc hstep => exact absurd hstep (hpanic _ _ _ _ _ pc)
    | arrive | peerClose =>
      rw [answering_eq_none h fun id stage hpc => by simp [hpc, SessionPc.response]]
      simp
    | readPending pc | readEnd pc | readBlank pc | readInvalid pc | readDone pc | readAuthorize pc
    | recvLagged pc | recvSkip pc | recvNotify pc | authorized pc | registered pc | wroteNext pc
    | wroteResponse pc | wroteNotify pc | writeFailed pc =>
      rw [answering_eq_none h (by simp [pc])]
      simp [pc, SessionPc.judged, judgedOf]
    | submitted pc | lookup pc | recorded pc | relookup pc | reportedBlock pc =>
      rw [answering_of_submitting h pc]
      simp [pc, SessionPc.judged, SessionPc.response, judgedOf]
    | notSubmitted pc | relookupNone pc | blockSubmitted pc | reported pc =>
      rw [answering_of_submitting h pc, response_finish]
      simp [pc, SessionPc.judged, SubmitStage.share, JudgedShare.told, AnsweredShare.told,
        told_finishSubmit, finish]

end Session

/-! ## The effects are a legal history -/

/-- An effect is a registration, or the verdict on the cell that the registry is. -/
theorem effect_cases {Ok : Pool → Event → Prop} {es : List Event} {p : Pool}
    (h : (poolMachine env parseJson).RunsTo Ok es p) {i : Nat} {x : Session}
    (get : p.sessions[i]? = some x) {cell : Option Job} (hcell : p.shared.registry = .cell cell)
    {e : SessionEvent} {eff : ServiceCall × Option ShareResult}
    (heff : x.effect env parseJson p.shared e = some eff) :
    (∃ share, eff = (.submit share, some (cellVerdict env cell share)) ∧
      p.registration (.session i e) = none) ∨
    ∃ job, eff = (.register job, none) ∧ p.registration (.session i e) = some (i, job) := by
  have hnone {e' : SessionEvent} (hne : ∀ job, e' = .proceed → x.pc ≠ .registering job) :
      p.registration (.session i e') = none := by
    rw [Option.eq_none_iff_forall_ne_some]
    rintro ⟨j, job⟩ hreg
    obtain ⟨heq, y, gety, hpc⟩ := Pool.registration_eq_some.mp hreg
    cases heq
    rw [get] at gety
    cases gety
    exact hne job rfl hpc
  unfold Session.effect at heff
  split at heff
  · obtain ⟨share, -, heff⟩ := Option.bind_eq_some_iff.mp heff
    obtain ⟨result, hresult, rfl⟩ := Option.map_eq_some_iff.mp heff
    refine .inl ⟨share, ?_, hnone (by simp)⟩
    rw [cellVerdict, hresult]
    rfl
  · split at heff
    · next id share hpc =>
      cases heff
      have hshape : rejectShape share = none :=
        inShape_of_runsTo h get (.lookup share) (by rw [hpc]; rfl)
      refine .inl ⟨share, ?_, hnone (by simp [hpc])⟩
      rw [cellVerdict, hshape, hcell, ActiveJobRegistry.getJob_cell]
      rfl
    · next job hpc =>
      cases heff
      exact .inr ⟨job, rfl, Pool.registration_eq_some.mpr ⟨rfl, x, get, hpc⟩⟩
    · cases heff
  · cases heff

/-- A step that registers a job has that effect. -/
theorem effect_of_registration {p : Pool} {i j : Nat} {x : Session} {e : SessionEvent} {job : Job}
    (get : p.sessions[i]? = some x) (hreg : p.registration (.session i e) = some (j, job)) :
    x.effect env parseJson p.shared e = some (.register job, none) := by
  obtain ⟨heq, y, gety, hpc⟩ := Pool.registration_eq_some.mp hreg
  cases heq
  rw [get] at gety
  cases gety
  simp only [Session.effect, hpc]

/-- The calls of a run linearize: their effects are a legal history of the object, which holds what
the registry does, and of each session the calls that started have had their effects in this order
but for one, and have returned in this order but for one, with responses that tell the verdicts of
their effects. -/
structure Linearizes (env : PoolEnv) (p : Pool) (h : ServiceCalls) : Prop where
  legal : (shareService env).Legal (h.effects.map Prod.snd)
  registry : p.shared.registry =
    .cell ((shareService env).state ((h.effects.map Prod.snd).map Prod.fst))
  started : ConservedInOrder (fun x : Session => x.pc.unjudged) h.started
    (h.judged.map fun v => (v.1, v.2.1)) p.sessions
  returned : ConservedInOrder (fun x : Session => x.pc.judged.map JudgedShare.told)
    (h.judged.map fun v => (v.1, v.2.told)) (h.returned.map fun a => (a.1, a.2.told)) p.sessions

namespace Linearizes

variable {p p' : Pool} {h : ServiceCalls}

/-- A broadcast has no effect. -/
theorem broadcast (hlin : Linearizes env p h) (poller : Poller) (job : Job) :
    Linearizes env { p with poller := poller, sessions := Pool.broadcast p.sessions job } h :=
  ⟨hlin.legal, hlin.registry, hlin.started.map fun x => (by split <;> rfl),
    hlin.returned.map fun x => (by split <;> rfl)⟩

/-- The effect of a step, behind the history. -/
theorem effect (hlin : Linearizes env p h) {es : List Event}
    (run : (poolMachine env parseJson).RunsTo (fun _ _ => True) es p) {i : Nat} {x : Session}
    {e : SessionEvent} (get : p.sessions[i]? = some x)
    (hstep : p.step env parseJson (.session i e) = some p') :
    let effects := h.effects ++ (x.effect env parseJson p.shared e).toList.map (i, ·)
    (shareService env).Legal (effects.map Prod.snd) ∧
      p'.shared.registry =
        .cell ((shareService env).state ((effects.map Prod.snd).map Prod.fst)) := by
  intro effects
  have hregistry := registry_of_step run hstep
  cases heff : x.effect env parseJson p.shared e with
  | none =>
    have heffects : effects = h.effects := by simp [effects, heff]
    have hnone : p.registration (.session i e) = none := by
      rw [Option.eq_none_iff_forall_ne_some]
      rintro ⟨j, job⟩ hreg
      rw [effect_of_registration get hreg] at heff
      cases heff
    rw [hnone] at hregistry
    rw [heffects]
    exact ⟨hlin.legal, hregistry.trans hlin.registry⟩
  | some eff =>
    have heffects : effects = h.effects ++ [(i, eff)] := by simp [effects, heff]
    rw [heffects, List.map_append, List.map_append]
    simp only [List.map_cons, List.map_nil, SequentialObject.state_append_singleton]
    obtain ⟨share, rfl, hnone⟩ | ⟨job, rfl, hreg⟩ := effect_cases run get hlin.registry heff
    · rw [hnone] at hregistry
      exact ⟨hlin.legal.snoc rfl, hregistry.trans hlin.registry⟩
    · rw [hreg] at hregistry
      exact ⟨hlin.legal.snoc rfl, hregistry⟩

/-- A step of a session takes its call on. -/
theorem session (hlin : Linearizes env p h) {es : List Event}
    (run : (poolMachine env parseJson).RunsTo (fun _ _ => True) es p) {i : Nat} {x x' : Session}
    {e : SessionEvent} {shared : Shared} (get : p.sessions[i]? = some x)
    (hstep : x.step env parseJson p.shared e = some (shared, x'))
    (hpanic : x.PanicFree env) :
    Linearizes env { p with shared := shared, sessions := p.sessions.set i x' }
      (h.record env parseJson p (.session i e)) := by
  have hpool : p.step env parseJson (.session i e) =
      some { p with shared := shared, sessions := p.sessions.set i x' } := by
    simp only [Pool.step, get, hstep]
    rfl
  have hcalls : h.record env parseJson p (.session i e) = {
      started := h.started ++ (x.dispatching parseJson p.shared e).toList.map (i, ·)
      effects := h.effects ++ (x.effect env parseJson p.shared e).toList.map (i, ·)
      returned := h.returned ++ (x.answering env parseJson p.shared e).toList.map (i, ·) } := by
    simp only [ServiceCalls.record, get]
  have hjudged : (h.record env parseJson p (.session i e)).judged = h.judged ++
      ((x.effect env parseJson p.shared e).toList.filterMap judgedOf).map (i, ·) := by
    rw [hcalls, ServiceCalls.judged, List.filterMap_append, List.filterMap_map, List.map_filterMap]
    rfl
  obtain ⟨hlegal, hregistry⟩ := hlin.effect run get hpool
  refine ⟨?_, ?_, ?_, ?_⟩
  · rw [hcalls]
    exact hlegal
  · rw [hcalls]
    exact hregistry
  · rw [hjudged, hcalls, List.map_append, List.map_map]
    have hstarted := hlin.started.step get (Session.step_cases hstep).unjudged_eq
    simpa [List.map_map, Function.comp_def] using hstarted
  · rw [hjudged, hcalls, List.map_append, List.map_append]
    have hreturned := hlin.returned.step get (Session.judged_eq hstep hpanic)
    simpa [List.map_map, Function.comp_def] using hreturned

end Linearizes

/-- Whatever the interleaving of the sessions, the shares are judged as by one cell for a job that
the calls take turns on. -/
theorem linearizes_of_runsTo (hbitcoin : env.bitcoin.FollowsFormat) {es : List Event}
    {s : Pool × ServiceCalls}
    (h : (serviceMachine env parseJson).RunsTo (fun _ _ => True) es s) :
    Linearizes env s.1 s.2 := by
  induction h with
  | nil => exact ⟨.nil, rfl, .nil, .nil⟩
  | @snoc es s s' e run ok step ih =>
    obtain ⟨p', hstep, rfl⟩ := Option.map_eq_some_iff.mp step
    cases e with
    | poll template =>
      cases hstep
      cases env.currentJob template with
      | none => exact ih
      | some job =>
        simp only [Pool.poll]
        split
        · exact ih.broadcast _ job
        · exact ih
    | connect =>
      cases hstep
      exact ⟨ih.legal, ih.registry, ih.started.append rfl, ih.returned.append rfl⟩
    | session i e =>
      have hpool : s.1.step env parseJson (.session i e) = some p' := hstep
      simp only [Pool.step] at hpool
      split at hpool
      · cases hpool
      · next x get =>
        obtain ⟨⟨shared, x'⟩, hx, rfl⟩ := Option.map_eq_some_iff.mp hpool
        exact ih.session run.of_track get hx
          (ne_panicked_of_runsTo hbitcoin run.of_track (List.mem_of_getElem? get))

/-- Session 1 registers a job between the start of session 0's call and its effect, which is behind
both registrations; the response tells that effect. -/
theorem linearizes_fixture : ∃ s,
    (serviceMachine fixtureEnv fixtureJson).run ([.connect, .connect] ++
      handshake 0 (templateAt 100) ++ sendLine 0 submitLine ++ handshake 1 (templateAt 101) ++
      [.session 0 .proceed, .session 0 .proceed, .session 0 .proceed]) = some s ∧
    s.2.effects.map Prod.fst = [0, 1, 0] ∧
    s.2.judged.map (fun v => v.2.2) = [.unknownJob "unknown job_id 100"] ∧
    s.2.returned.map (fun a => a.2.2.told) = [some (.refused "unknown job_id 100")] ∧
    Linearizes fixtureEnv s.1 s.2 := by
  have hany : ((serviceMachine fixtureEnv fixtureJson).run ([.connect, .connect] ++
      handshake 0 (templateAt 100) ++ sendLine 0 submitLine ++ handshake 1 (templateAt 101) ++
      [.session 0 .proceed, .session 0 .proceed, .session 0 .proceed])).any (fun s =>
        decide (s.2.effects.map Prod.fst = [0, 1, 0] ∧
          s.2.judged.map (fun v => v.2.2) = [.unknownJob "unknown job_id 100"] ∧
          s.2.returned.map (fun a => a.2.2.told) = [some (.refused "unknown job_id 100")])) =
            true := by
    decide +kernel
  obtain ⟨s, hs, hprops⟩ := (Option.any_eq_true _ _).mp hany
  obtain ⟨hsessions, hverdicts, hreturned⟩ := of_decide_eq_true hprops
  exact ⟨s, hs, hsessions, hverdicts, hreturned,
    linearizes_of_runsTo BitcoinCrate.ofFormat_followsFormat (Machine.runsTo_of_run hs)⟩

end AzcoinPool
