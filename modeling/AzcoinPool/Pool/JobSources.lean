import AzcoinPool.Coin.NodeApi
import AzcoinPool.Core.RegistryList
import AzcoinPool.Pool.Attribution
import AzcoinPool.Pool.JobAgreement
import AzcoinPool.Pool.Provenance

/-!
# The pool on any job source

`JobSource` is a trait: the poller, the authorizations and the submissions call `current_job` of
whatever source is configured. `sourceMachine` is the pool on an arbitrary source, which may answer
each call with any job or none. On the RPC source it has the runs of the pool
(`sourced_of_runsTo`). What the jobs of a source all have, the jobs a pool on it holds all have
(`holdsFrom_of_runsTo`). So a pool whose source gives no block-assembly data, as the node API does,
submits no block, whatever its miners find (`unsubmitted_of_runsTo`), and on every source the
registry is the bounded list of the jobs that were registered last (`recentJobs_of_runsTo`).
-/

namespace AzcoinPool

variable {α : Type} {env : PoolEnv} {parseJson : String → Option Sv1Request} {P : Job → Prop}

/-! ## Job sources -/

/-- `JobSource::current_job`, given what the call gets from outside. -/
abbrev JobSource (α : Type) := α → Option Job

/-- `NodeApiJobSource::current_job`, for an answer of the node. -/
def nodeApiCurrentJob : JobSource (Except PoolError (Option NodeApiTemplate))
  | .ok (some template) => (apiTemplateToJob template).toOption
  | .ok none => none
  | .error _ => none

def Job.placeholder : Job where
  jobId := "0"
  prevHash := Bytes32.fill 0
  coinbasePart1 := [0x01, 0x00, 0x00, 0x00, 0x00]
  coinbasePart2 := [0xff, 0xff, 0xff, 0xff]
  merkleBranch := []
  version := 0x20000000
  nbits := 0x1d00ffff
  ntime := 0
  cleanJobs := true
  blockAssembly := none

/-- `StubJobSource::current_job`. -/
def stubCurrentJob : JobSource Unit := fun _ => some .placeholder

/-- The source gives no block-assembly data. -/
def WithoutAssembly (source : JobSource α) : Prop :=
  ∀ a job, source a = some job → job.blockAssembly = none

theorem withoutAssembly_nodeApi : WithoutAssembly nodeApiCurrentJob := by
  intro answer job h
  unfold nodeApiCurrentJob at h
  split at h
  · next template =>
    cases hmap : apiTemplateToJob template with
    | error e => rw [hmap] at h; cases h
    | ok j =>
      rw [hmap] at h
      cases h
      rw [apiTemplateToJob] at hmap
      obtain ⟨prevHash, -, hmap⟩ := Except.bind_eq_ok.mp hmap
      obtain ⟨nbits, -, hmap⟩ := Except.bind_eq_ok.mp hmap
      obtain ⟨ntime, -, hmap⟩ := Except.bind_eq_ok.mp hmap
      cases hmap
      rfl
  · cases h
  · cases h

theorem withoutAssembly_stub : WithoutAssembly stubCurrentJob := by
  rintro - job ⟨⟩
  rfl

/-! ## The pool on a source -/

inductive SourceEvent (α : Type) where
  /-- A `current_job` of the poller returns. -/
  | poll (a : α)
  | connect
  /-- A `current_job` the session at the index awaits returns. -/
  | currentJob (s : Nat) (a : α)
  /-- Anything else happens to the session at the index. -/
  | session (s : Nat) (event : SessionEvent)

/-- A session goes on with the answer of `current_job`. -/
def Session.answered (env : PoolEnv) (shared : Shared) (x : Session) (job? : Option Job) :
    Option (Shared × Session) :=
  match x.pc with
  | .authorizing id username => some (shared, x.authorized env id username job?)
  | .submitting id (.fetching share job validated) =>
    some (x.submitCurrent env shared id share job validated job?)
  | _ => none

def Pool.stepFrom (source : JobSource α) (env : PoolEnv) (parseJson : String → Option Sv1Request)
    (p : Pool) : SourceEvent α → Option Pool
  | .poll a => some (p.poll (source a))
  | .connect => some { p with sessions := p.sessions ++ [{}] }
  | .currentJob s a =>
    match p.sessions[s]? with
    | none => none
    | some x =>
      (x.answered env p.shared (source a)).map fun r =>
        { p with shared := r.1, sessions := p.sessions.set s r.2 }
  | .session _ (.currentJob _) => none
  | .session s event => p.step env parseJson (.session s event)

/-- The pool on a source, as a machine. -/
def sourceMachine (source : JobSource α) (env : PoolEnv)
    (parseJson : String → Option Sv1Request) : Machine Pool (SourceEvent α) where
  init := {}
  step := Pool.stepFrom source env parseJson

/-- The event of the pool, with the answers of `current_job` apart. -/
def Event.sourced : Event → SourceEvent (Except PoolError (Option BlockTemplate))
  | .poll template => .poll template
  | .connect => .connect
  | .session s (.currentJob template) => .currentJob s template
  | .session s event => .session s event

/-- On the RPC source a step is one of the pool. -/
theorem Pool.stepFrom_sourced (p : Pool) (e : Event) :
    p.stepFrom env.currentJob env parseJson e.sourced = p.step env parseJson e := by
  cases e with
  | poll | connect => rfl
  | session s event => cases event <;> rfl

/-- The runs of the pool are runs on the RPC source. -/
theorem sourced_of_runsTo {Ok : Pool → Event → Prop} {es : List Event} {p : Pool}
    (h : (poolMachine env parseJson).RunsTo Ok es p) :
    (sourceMachine env.currentJob env parseJson).RunsTo (fun _ _ => True) (es.map Event.sourced)
      p := by
  have hinit : (sourceMachine env.currentJob env parseJson).init =
      (poolMachine env parseJson).init := rfl
  exact h.map hinit fun p e p' hstep => (Pool.stepFrom_sourced p e).trans hstep

/-- The event of the pool that an event on the RPC source is. -/
def SourceEvent.plain : SourceEvent (Except PoolError (Option BlockTemplate)) → Event
  | .poll a => .poll a
  | .connect => .connect
  | .currentJob s a => .session s (.currentJob a)
  -- no step on a source
  | .session s (.currentJob _) => .session s (.currentJob (.ok none))
  | .session s event => .session s event

/-- A step on the RPC source is one of the pool. -/
theorem Pool.step_plain {p p' : Pool} {e : SourceEvent (Except PoolError (Option BlockTemplate))}
    (h : p.stepFrom env.currentJob env parseJson e = some p') :
    p.step env parseJson e.plain = some p' := by
  cases e with
  | poll | connect | currentJob => exact h
  | session s event =>
    cases event with
    | currentJob => cases h
    | _ => exact h

/-- The runs on the RPC source are runs of the pool. -/
theorem plain_of_runsTo {Ok : Pool → SourceEvent (Except PoolError (Option BlockTemplate)) → Prop}
    {es : List (SourceEvent (Except PoolError (Option BlockTemplate)))} {p : Pool}
    (h : (sourceMachine env.currentJob env parseJson).RunsTo Ok es p) :
    (poolMachine env parseJson).RunsTo (fun _ _ => True) (es.map SourceEvent.plain) p := by
  have hinit : (poolMachine env parseJson).init =
      (sourceMachine env.currentJob env parseJson).init := rfl
  exact h.map hinit fun _ _ _ hstep => Pool.step_plain hstep

/-- A step on a source is a turn of the poller, a connection, the answer of a session's
`current_job`, or a step of a session as in the pool. -/
theorem Pool.stepFrom_cases {source : JobSource α} {p p' : Pool} {e : SourceEvent α}
    (h : p.stepFrom source env parseJson e = some p') :
    (∃ a, e = .poll a ∧ p' = p.poll (source a)) ∨
    (e = .connect ∧ p' = { p with sessions := p.sessions ++ [{}] }) ∨
    (∃ s a x shared x', e = .currentJob s a ∧ p.sessions[s]? = some x ∧
      x.answered env p.shared (source a) = some (shared, x') ∧
        p' = { p with shared := shared, sessions := p.sessions.set s x' }) ∨
    ∃ s event x shared x', e = .session s event ∧ event.template = none ∧
      p.sessions[s]? = some x ∧ Session.StepTo env parseJson p.shared x event shared x' ∧
        p' = { p with shared := shared, sessions := p.sessions.set s x' } := by
  cases e with
  | poll a => cases h; exact .inl ⟨a, rfl, rfl⟩
  | connect => cases h; exact .inr (.inl ⟨rfl, rfl⟩)
  | currentJob s a =>
    simp only [stepFrom] at h
    split at h
    · cases h
    · next x hget =>
      obtain ⟨⟨shared, x'⟩, hanswered, rfl⟩ := Option.map_eq_some_iff.mp h
      exact .inr (.inr (.inl ⟨s, a, x, shared, x', rfl, hget, hanswered, rfl⟩))
  | session s event =>
    have hstep : event.template = none ∧ p.step env parseJson (.session s event) = some p' := by
      cases event with
      | currentJob template => cases h
      | _ => exact ⟨rfl, h⟩
    obtain ⟨hnone, hstep⟩ := hstep
    cases Pool.step_cases hstep with
    | session get hrule => exact .inr (.inr (.inr ⟨s, event, _, _, _, rfl, hnone, get, hrule, rfl⟩))

/-! ## The jobs of a source -/

/-- The answer of `current_job` in an event. -/
def SourceEvent.answer (source : JobSource α) : SourceEvent α → Option Job
  | .poll a => source a
  | .currentJob _ a => source a
  | _ => none

/-- A session that goes on with a job of the property holds on to it. -/
theorem Session.Holds.answered {shared shared' : Shared} {x x' : Session} {job? : Option Job}
    (hshared : shared.Holds env P) (h : x.Holds P) (hjob : ∀ job ∈ job?, P job)
    (hanswered : x.answered env shared job? = some (shared', x')) :
    shared'.Holds env P ∧ x'.Holds P := by
  unfold Session.answered at hanswered
  split at hanswered
  · cases hanswered
    refine ⟨hshared, h.queue, fun job hmem => ?_, h.notified⟩
    simp only [authorized, finishAuthorize, SessionPc.jobs_respond] at hmem
    exact hjob job (Option.mem_toList.mp hmem)
  · next id share job validated hpc =>
    have hheld := h.pc
    simp only [hpc, SessionPc.jobs, SubmitStage.jobs, List.forall_mem_cons] at hheld
    obtain ⟨hheld, hvalidated⟩ := hheld
    have hnone : ∀ pc : SessionPc, pc.jobs = [] → { x with pc := pc }.Holds P :=
      fun pc hpc => h.withPc (by simp [hpc])
    unfold submitCurrent at hanswered
    split at hanswered
    · cases hanswered; exact ⟨hshared, hnone _ (SessionPc.jobs_respond ..)⟩
    · cases hanswered; exact ⟨hshared, hnone _ (SessionPc.jobs_respond ..)⟩
    · cases hanswered; exact ⟨hshared, hnone _ rfl⟩
    · next candidate hstep =>
      cases hanswered
      refine ⟨⟨hshared.registry, ?_⟩, h.withPc hvalidated⟩
      simp only [List.forall_mem_append, List.forall_mem_singleton]
      exact ⟨hshared.submitted, fun j hj => hvalidated j (Option.mem_toList.mpr hj), _, _, hheld,
        hstep⟩
  · cases hanswered

/-- A step on a source holds on to a property that the job of the answer in it has. -/
theorem Pool.Holds.stepFrom {source : JobSource α} {p p' : Pool} {e : SourceEvent α}
    (h : p.Holds env P) (hanswer : ∀ job ∈ e.answer source, P job)
    (hstep : p.stepFrom source env parseJson e = some p') : p'.Holds env P := by
  obtain ⟨a, rfl, rfl⟩ | ⟨rfl, rfl⟩ | ⟨s, a, x, shared, x', rfl, get, hanswered, rfl⟩ |
    ⟨s, event, x, shared, x', rfl, hnone, get, hrule, rfl⟩ := Pool.stepFrom_cases hstep
  · exact h.poll hanswer
  · exact h.connect
  · have hx := h.sessions x (List.mem_of_getElem? get)
    exact h.setSession (hx.answered h.shared hanswer hanswered) s
  · have hx := h.sessions x (List.mem_of_getElem? get)
    exact h.setSession (hx.step h.shared (by simp [hnone]) hrule) s

/-- What the jobs of a source all have, the jobs a pool on it holds all have. -/
theorem holdsFrom_of_runsTo {source : JobSource α} (hsource : ∀ a job, source a = some job → P job)
    {Ok : Pool → SourceEvent α → Prop} {es : List (SourceEvent α)} {p : Pool}
    (h : (sourceMachine source env parseJson).RunsTo Ok es p) : p.Holds env P := by
  refine h.invariant (fun p => p.Holds env P) ⟨⟨by simp [sourceMachine], by simp [sourceMachine]⟩,
    by simp [sourceMachine], by simp [sourceMachine]⟩ fun {p e p'} hholds _ hstep => ?_
  refine hholds.stepFrom (fun job hjob => ?_) hstep
  cases e with
  | poll a => exact hsource a job hjob
  | currentJob s a => exact hsource a job hjob
  | connect | session => cases hjob

/-! ## Found blocks without their transactions -/

/-- On a job without block-assembly data `maybe_submit_block_candidate` returns without a call of
the submitter. -/
theorem maybeSubmitStep_of_withoutAssembly {job : Job} {current : Option Job}
    {share : ShareSubmission} (hassembly : job.blockAssembly = none) :
    maybeSubmitStep env job current share = none ∨
      ∃ result, maybeSubmitStep env job current share = some (.finished result) := by
  unfold maybeSubmitStep
  split
  · exact .inl rfl
  · split
    · exact .inl rfl
    · split
      · exact .inl rfl
      · exact .inr ⟨_, by rw [candidateStep, hassembly]⟩

theorem submitCurrent_of_withoutAssembly {shared : Shared} {x : Session} {id : Option Value}
    {share : ShareSubmission} {job : Job} {validated current : Option Job}
    (hassembly : job.blockAssembly = none) :
    x.submitCurrent env shared id share job validated current =
      (shared, x.finish env id .block) := by
  rw [Session.submitCurrent]
  obtain hstep | ⟨result, hstep⟩ := maybeSubmitStep_of_withoutAssembly hassembly <;> rw [hstep]

/-- On a source without block-assembly data nothing is submitted. -/
theorem submitted_eq_nil_of_runsTo {source : JobSource α} (hsource : WithoutAssembly source)
    {Ok : Pool → SourceEvent α → Prop} {es : List (SourceEvent α)} {p : Pool}
    (h : (sourceMachine source env parseJson).RunsTo Ok es p) : p.shared.submitted = [] := by
  have hholds := holdsFrom_of_runsTo (P := fun job => job.blockAssembly = none) hsource h
  rw [List.eq_nil_iff_forall_not_mem]
  intro sub hsub
  obtain ⟨-, job, current, hassembly, hstep⟩ := hholds.shared.submitted sub hsub
  obtain hnone | ⟨result, hfinished⟩ := maybeSubmitStep_of_withoutAssembly hassembly
  · cases hstep.symm.trans hnone
  · cases hstep.symm.trans hfinished

/-- A pool on a source without block-assembly data never calls the block submitter, and a miner who
has found a block gets the response of an accepted share, whatever `current_job` returns. -/
theorem unsubmitted_of_runsTo {source : JobSource α} (hsource : WithoutAssembly source)
    {Ok : Pool → SourceEvent α → Prop} {es : List (SourceEvent α)} {p : Pool}
    (h : (sourceMachine source env parseJson).RunsTo Ok es p) :
    p.shared.submitted = [] ∧
      ∀ s x id share job validated, p.sessions[s]? = some x →
        x.pc = .submitting id (.fetching share job validated) → ∀ a,
          p.stepFrom source env parseJson (.currentJob s a) =
            some { p with sessions := p.sessions.set s { x with
              pc := .writing (.response ⟨id, some (.bool true), none⟩) [] none } } := by
  have hholds := holdsFrom_of_runsTo (P := fun job => job.blockAssembly = none) hsource h
  refine ⟨submitted_eq_nil_of_runsTo hsource h,
    fun s x id share job validated get hpc a => ?_⟩
  have hheld := (hholds.sessions x (List.mem_of_getElem? get)).pc
  simp only [hpc, SessionPc.jobs, SubmitStage.jobs, List.forall_mem_cons] at hheld
  simp only [Pool.stepFrom, get, Session.answered, hpc, submitCurrent_of_withoutAssembly hheld.1]
  rfl

/-! ## The registry on a source -/

/-- The session that registers a job in the step, with the job. -/
def Pool.registrationFrom (p : Pool) : SourceEvent α → Option (Nat × Job)
  | .session s event => p.registration (.session s event)
  | _ => none

/-- The pool on a source, with the registrations of the run. -/
def registeringSource (source : JobSource α) (env : PoolEnv)
    (parseJson : String → Option Sv1Request) : Machine (Pool × List (Nat × Job)) (SourceEvent α) :=
  (sourceMachine source env parseJson).track [] fun p e h => h ++ (p.registrationFrom e).toList

@[simp] theorem Pool.registrationFrom_sourced (p : Pool) (e : Event) :
    p.registrationFrom e.sourced = p.registration e := by
  cases e with
  | poll | connect => rfl
  | session s event => cases event <;> rfl

/-- What `current_job` answers does not go into the registry. -/
theorem Session.registry_of_answered {shared shared' : Shared} {x x' : Session} {job? : Option Job}
    (h : x.answered env shared job? = some (shared', x')) : shared'.registry = shared.registry := by
  unfold answered at h
  split at h
  · cases h; rfl
  · unfold submitCurrent at h
    split at h <;> cases h <;> rfl
  · cases h

/-- A step changes the registry by the job it registers. -/
theorem Pool.registry_of_stepFrom {source : JobSource α} {p p' : Pool} {e : SourceEvent α}
    (h : p.stepFrom source env parseJson e = some p') :
    p'.shared.registry = ((p.registrationFrom e).toList.map Prod.snd).foldl
      ActiveJobRegistry.register p.shared.registry := by
  obtain ⟨a, rfl, rfl⟩ | ⟨rfl, rfl⟩ | ⟨s, a, x, shared, x', rfl, get, hanswered, rfl⟩ |
    ⟨s, event, x, shared, x', rfl, -, get, hrule, rfl⟩ := stepFrom_cases h
  · show (p.poll (source a)).shared.registry = p.shared.registry
    unfold poll
    split
    · rfl
    · split <;> rfl
  · rfl
  · exact Session.registry_of_answered hanswered
  · obtain ⟨job, rfl, hpc, rfl, hregistry⟩ | hregistry := hrule.registry_eq
    · have hreg : p.registration (.session s .proceed) = some (s, job) :=
        registration_eq_some.mpr ⟨rfl, x, get, hpc⟩
      simp only [registrationFrom, hreg]
      exact hregistry
    · cases hreg : p.registration (.session s event) with
      | none => simp only [registrationFrom, hreg]; exact hregistry
      | some r =>
        obtain ⟨heq, y, gety, hpc⟩ := registration_eq_some.mp hreg
        cases heq
        obtain rfl : x = y := Option.some.inj (get.symm.trans gety)
        simp only [registrationFrom, hreg]
        exact hrule.of_registering hpc

/-- Over every run on a source the registry is what its registrations make of it. -/
theorem registry_of_registeringSource {source : JobSource α} {es : List (SourceEvent α)}
    {s : Pool × List (Nat × Job)}
    (h : (registeringSource source env parseJson).RunsTo (fun _ _ => True) es s) :
    s.1.shared.registry = (s.2.map Prod.snd).foldl ActiveJobRegistry.register .new := by
  induction h with
  | nil => rfl
  | snoc run ok step ih =>
    obtain ⟨p', hstep, rfl⟩ := Option.map_eq_some_iff.mp step
    rw [Pool.registry_of_stepFrom hstep, ih, List.map_append, List.foldl_append]

/-- The session has written the notification of the job. -/
structure Session.HasNotified (x : Session) (job : Job) : Prop where
  notified : job ∈ x.notified
  written : SentLine.notification (buildMiningNotify job) ∈ x.written

/-- What a session has notified it keeps while its lines grow. -/
theorem Session.HasNotified.mono {x x' : Session} {job : Job} (h : x.HasNotified job)
    (hnotified : x.notified ⊆ x'.notified) (hwritten : x.written ⊆ x'.written) :
    x'.HasNotified job :=
  ⟨hnotified h.notified, hwritten h.written⟩

theorem Session.StepTo.hasNotified {shared shared' : Shared} {x x' : Session} {e : SessionEvent}
    (hstep : StepTo env parseJson shared x e shared' x') {job : Job} (h : x.HasNotified job) :
    x'.HasNotified job := by
  cases hstep with
  | wroteNext | wroteResponse => exact h.mono (List.Subset.refl _) (List.subset_append_left _ _)
  | wroteNotify => exact h.mono (List.subset_append_left _ _) (List.subset_append_left _ _)
  | _ => exact h.mono (List.Subset.refl _) (List.Subset.refl _)

/-- A job that a session registers was notified to its miner, and the last of the lines that a
session writes for a job is the job's notification. -/
structure Session.RegistersNotified (x : Session) : Prop where
  writing : ∀ line rest job, x.pc = .writing line rest (some job) →
    (line :: rest).getLast? = some (.notification (buildMiningNotify job))
  registering : ∀ job, x.pc = .registering job → x.HasNotified job

theorem getLast?_of_respond {response : Sv1Response} {notify : Option Job} {line : SentLine}
    {rest : List SentLine} {job : Job}
    (h : respond env response notify = .writing line rest (some job)) :
    (line :: rest).getLast? = some (.notification (buildMiningNotify job)) := by
  cases notify with
  | none => cases h
  | some job' => cases h; rfl

theorem Session.registersNotified_of_answered {shared shared' : Shared} {x x' : Session}
    {job? : Option Job} (h : x.answered env shared job? = some (shared', x')) :
    x'.RegistersNotified ∧ x'.notified = x.notified ∧ x'.written = x.written := by
  unfold answered at h
  split at h
  · cases h
    refine ⟨⟨fun line rest job hpc => getLast?_of_respond hpc, ?_⟩, rfl, rfl⟩
    simp [authorized, finishAuthorize]
  · unfold submitCurrent at h
    split at h <;> cases h <;> exact ⟨⟨by simp [finish, respond], by simp [finish]⟩, rfl, rfl⟩
  · cases h

theorem Session.RegistersNotified.step {shared shared' : Shared} {x x' : Session} {e : SessionEvent}
    (h : x.RegistersNotified) (hstep : StepTo env parseJson shared x e shared' x') :
    x'.RegistersNotified := by
  have hkept {job : Job} : x.HasNotified job → x'.HasNotified job := hstep.hasNotified
  cases hstep with
  | arrive | peerClose | readPending | readBlank | recvLagged | recvSkip =>
    exact ⟨h.writing, fun job hpc => hkept (h.registering job hpc)⟩
  | recvNotify =>
    refine ⟨?_, nofun⟩
    rintro line rest job ⟨⟩
    rfl
  | authorized => exact ⟨fun line rest job hpc => getLast?_of_respond hpc, by simp⟩
  | wroteNext pc =>
    refine ⟨?_, nofun⟩
    rintro line rest job ⟨⟩
    have hlast := h.writing _ _ _ pc
    rwa [List.getLast?_cons_cons] at hlast
  | wroteResponse => exact ⟨nofun, nofun⟩
  | wroteNotify pc =>
    refine ⟨nofun, ?_⟩
    rintro _ ⟨⟩
    obtain rfl := Option.some.inj (h.writing _ _ _ pc)
    exact ⟨List.mem_append_right _ (List.mem_singleton_self _),
      List.mem_append_right _ (List.mem_singleton_self _)⟩
  | _ => exact ⟨by simp [finish, respond], by simp [finish]⟩

/-- The sessions register what they notified, and the jobs that were registered were notified to the
miners of the sessions. -/
structure Pool.NotifiedBefore (p : Pool) (h : List (Nat × Job)) : Prop where
  sessions : ∀ (i : Nat) (x : Session), p.sessions[i]? = some x → x.RegistersNotified
  registered : ∀ r ∈ h, ∃ x, p.sessions[r.1]? = some x ∧ x.HasNotified r.2

theorem Pool.NotifiedBefore.poll {p : Pool} {h : List (Nat × Job)} (hbefore : p.NotifiedBefore h)
    (job? : Option Job) : (p.poll job?).NotifiedBefore h := by
  unfold Pool.poll
  split
  · exact hbefore
  · next job =>
    split
    · refine ⟨fun i x get => ?_, fun r hr => ?_⟩
      · obtain ⟨y, gety, rfl | rfl⟩ := Pool.broadcast_eq_some get
        · exact hbefore.sessions i x gety
        · have hy := hbefore.sessions i y gety
          exact ⟨hy.writing, fun job hpc =>
            (hy.registering job hpc).mono (List.Subset.refl _) (List.Subset.refl _)⟩
      · obtain ⟨x, get, hmem⟩ := hbefore.registered r hr
        refine ⟨_, by rw [broadcast, List.getElem?_map, get]; rfl, ?_⟩
        dsimp only
        split <;> exact hmem.mono (List.Subset.refl _) (List.Subset.refl _)
    · exact hbefore

/-- A session goes on, with what it has notified. -/
theorem Pool.NotifiedBefore.setSession {p : Pool} {h : List (Nat × Job)}
    (hbefore : p.NotifiedBefore h) {i : Nat} {x x' : Session} (get : p.sessions[i]? = some x)
    (hx' : x'.RegistersNotified) (hkept : ∀ job, x.HasNotified job → x'.HasNotified job)
    (shared : Shared) :
    { p with shared := shared, sessions := p.sessions.set i x' }.NotifiedBefore h := by
  refine ⟨fun j y gety => ?_, fun r hr => ?_⟩
  · obtain ⟨-, rfl⟩ | ⟨-, gety⟩ := Pool.set_eq_some gety
    · exact hx'
    · exact hbefore.sessions j y gety
  · obtain ⟨y, gety, hmem⟩ := hbefore.registered r hr
    by_cases hi : i = r.1
    · subst hi
      obtain rfl : x = y := Option.some.inj (get.symm.trans gety)
      exact ⟨x', List.getElem?_set_self (List.getElem?_eq_some_iff.mp get).1, hkept _ hmem⟩
    · refine ⟨y, ?_, hmem⟩
      rw [List.getElem?_set_ne hi]
      exact gety

theorem Pool.NotifiedBefore.stepFrom {source : JobSource α} {p p' : Pool} {e : SourceEvent α}
    {h : List (Nat × Job)} (hbefore : p.NotifiedBefore h)
    (hstep : p.stepFrom source env parseJson e = some p') : p'.NotifiedBefore h := by
  obtain ⟨a, rfl, rfl⟩ | ⟨rfl, rfl⟩ | ⟨s, a, x, shared, x', rfl, get, hanswered, rfl⟩ |
    ⟨s, event, x, shared, x', rfl, -, get, hrule, rfl⟩ := Pool.stepFrom_cases hstep
  · exact hbefore.poll (source a)
  · refine ⟨fun i x get => ?_, fun r hr => ?_⟩
    · obtain get | rfl := Pool.connect_eq_some get
      · exact hbefore.sessions i x get
      · exact ⟨nofun, nofun⟩
    · obtain ⟨x, get, hmem⟩ := hbefore.registered r hr
      refine ⟨x, ?_, hmem⟩
      rw [List.getElem?_append_left (List.getElem?_eq_some_iff.mp get).1]
      exact get
  · obtain ⟨hx', hnotified, hwritten⟩ := Session.registersNotified_of_answered hanswered
    exact hbefore.setSession get hx'
      (fun job h => h.mono (by simp [hnotified]) (by simp [hwritten])) shared
  · exact hbefore.setSession get ((hbefore.sessions s x get).step hrule)
      (fun job => hrule.hasNotified) shared

/-- Over every run on a source, what is registered was notified. -/
theorem notifiedBefore_of_registeringSource {source : JobSource α} {es : List (SourceEvent α)}
    {s : Pool × List (Nat × Job)}
    (h : (registeringSource source env parseJson).RunsTo (fun _ _ => True) es s) :
    s.1.NotifiedBefore s.2 := by
  induction h with
  | nil => exact ⟨by simp [registeringSource, Machine.track, sourceMachine],
      by simp [registeringSource, Machine.track]⟩
  | @snoc es s s' e run ok step ih =>
    obtain ⟨p', hstep, rfl⟩ := Option.map_eq_some_iff.mp step
    have hbefore := ih.stepFrom hstep
    refine ⟨hbefore.sessions, ?_⟩
    simp only [List.forall_mem_append]
    refine ⟨hbefore.registered, fun r hr => ?_⟩
    cases e with
    | session i event =>
      obtain ⟨i', job⟩ := r
      obtain ⟨heq, x, get, hpc⟩ := Pool.registration_eq_some.mp (Option.mem_toList.mp hr)
      cases heq
      -- the session has the job among its notifications before the step already
      have hnow : s.1.NotifiedBefore [(i, job)] := by
        refine ⟨ih.sessions, ?_⟩
        simp only [List.forall_mem_singleton]
        exact ⟨x, get, (ih.sessions i x get).registering job hpc⟩
      have hproceed : s.1.stepFrom source env parseJson (.session i .proceed) = some p' := hstep
      exact (hnow.stepFrom hproceed).registered _ (List.mem_singleton_self _)
    | poll | connect | currentJob => cases hr

/-- The jobs that a list of registrations leaves in the registry, oldest first. -/
def recentJobs (h : List (Nat × Job)) : RecentJobs :=
  (h.map Prod.snd).foldl RecentJobs.register []

/-- The registry has the recent jobs, sixty-four at most, and what was registered had been written
to the miner of its session. -/
structure Pool.KeepsRecent (p : Pool) (h : List (Nat × Job)) : Prop where
  registry : p.shared.registry.Refines (recentJobs h)
  length : (recentJobs h).length ≤ activeJobsMax
  notified : ∀ r ∈ h, ∃ x, p.sessions[r.1]? = some x ∧ x.HasNotified r.2

/-- A share is judged by the recent job of its id. -/
theorem Pool.KeepsRecent.judge {p : Pool} {h : List (Nat × Job)} (hrecent : p.KeepsRecent h)
    (share : ShareSubmission) :
    env.shareProcessor.judge (p.shared.registry.getJob share.jobId) share =
      env.shareProcessor.judge
        ((recentJobs h).find? fun job => decide (job.jobId = share.jobId)) share := by
  rw [ActiveJobRegistry.getJob, hrecent.registry.byKey_eq]
  rfl

/-- On every source, the registry that the sessions share keeps the jobs that were registered last
by any of them, and every job that was registered had been notified to the session's miner. -/
theorem recentJobs_of_runsTo {source : JobSource α} {es : List (SourceEvent α)}
    {s : Pool × List (Nat × Job)}
    (h : (registeringSource source env parseJson).RunsTo (fun _ _ => True) es s) :
    s.1.KeepsRecent s.2 := by
  obtain ⟨hrefines, hlength⟩ :=
    ActiveJobRegistry.refines_foldl_register (s.2.map Prod.snd)
  refine ⟨?_, hlength, (notifiedBefore_of_registeringSource h).registered⟩
  rw [registry_of_registeringSource h]
  exact hrefines

/-! ## A fixture -/

/-- A session subscribes, authorizes and is notified of the job of an answer. -/
def sourceHandshake (s : Nat) (a : α) : List (SourceEvent α) :=
  [.session s (.arrive (utf8 (subscribeLine ++ "\n"))), .session s .pollRead,
    .session s (.written true), .session s (.arrive (utf8 (authorizeLine ++ "\n"))),
    .session s .pollRead, .currentJob s a, .session s (.written true), .session s (.written true),
    .session s (.written true), .session s .proceed]

/-- An answer of the node with a job of the id that does not end the jobs before it. -/
def fixtureApiAnswer (jobId : String) : Except PoolError (Option NodeApiTemplate) :=
  .ok (some { fixtureApiTemplate with jobId := jobId, cleanJobs := false })

/-- On the node API a miner finds a block, is answered that the share is accepted, and nothing is
submitted. -/
theorem unsubmitted_fixture : ∃ p x id share job validated,
    (sourceMachine nodeApiCurrentJob fixtureEnv fixtureJson).run ([.connect] ++
      sourceHandshake 0 (fixtureApiAnswer "100") ++
        [.session 0 (.arrive (utf8 (submitLine ++ "\n"))), .session 0 .pollRead,
          .session 0 .proceed, .session 0 .proceed, .session 0 .proceed,
          .session 0 .proceed]) = some p ∧
    p.sessions[0]? = some x ∧ x.pc = .submitting id (.fetching share job validated) ∧
    p.shared.submitted = [] ∧ ∀ a,
      p.stepFrom nodeApiCurrentJob fixtureEnv fixtureJson (.currentJob 0 a) =
        some { p with sessions := p.sessions.set 0 { x with
          pc := .writing (.response ⟨id, some (.bool true), none⟩) [] none } } := by
  have hany : ((sourceMachine nodeApiCurrentJob fixtureEnv fixtureJson).run ([.connect] ++
      sourceHandshake 0 (fixtureApiAnswer "100") ++
        [.session 0 (.arrive (utf8 (submitLine ++ "\n"))), .session 0 .pollRead,
          .session 0 .proceed, .session 0 .proceed, .session 0 .proceed,
          .session 0 .proceed])).any (fun p =>
      (p.sessions[0]?).any fun x => x.pc.submitStage.any fun stage =>
        decide (stage.jobs.length = 2)) = true := by
    decide +kernel
  obtain ⟨p, hp, hprops⟩ := (Option.any_eq_true _ _).mp hany
  obtain ⟨x, get, hpc⟩ := (Option.any_eq_true _ _).mp hprops
  obtain ⟨stage, hstage, hjobs⟩ := (Option.any_eq_true _ _).mp hpc
  have hjobs : stage.jobs.length = 2 := of_decide_eq_true hjobs
  obtain ⟨id, hpc⟩ := SessionPc.submitStage_eq_some.mp hstage
  cases stage with
  | fetching share job validated =>
    obtain ⟨hsubmitted, hanswer⟩ :=
      unsubmitted_of_runsTo withoutAssembly_nodeApi (Machine.runsTo_of_run hp)
    exact ⟨p, x, id, share, job, validated, hp, get, hpc, hsubmitted,
      hanswer 0 x id share job validated get hpc⟩
  | lookup => cases hjobs
  -- only while it awaits `current_job` does a submission go by two jobs
  | recording _ _ validated | reporting _ _ validated | relookup _ validated
  | submitting _ _ validated =>
    cases validated <;> cases hjobs

/-- Two sessions register jobs of the node API that do not end each other: the registry has both. -/
theorem recentJobs_fixture : ∃ s,
    (registeringSource nodeApiCurrentJob fixtureEnv fixtureJson).run ([.connect, .connect] ++
      sourceHandshake 0 (fixtureApiAnswer "100") ++ sourceHandshake 1 (fixtureApiAnswer "101")) =
        some s ∧
    (recentJobs s.2).map Job.jobId = ["100", "101"] ∧ s.1.KeepsRecent s.2 := by
  have hany : ((registeringSource nodeApiCurrentJob fixtureEnv fixtureJson).run
      ([.connect, .connect] ++ sourceHandshake 0 (fixtureApiAnswer "100") ++
        sourceHandshake 1 (fixtureApiAnswer "101"))).any
          (fun s => decide ((recentJobs s.2).map Job.jobId = ["100", "101"])) = true := by
    decide +kernel
  obtain ⟨s, hs, hprops⟩ := (Option.any_eq_true _ _).mp hany
  exact ⟨s, hs, of_decide_eq_true hprops, recentJobs_of_runsTo (Machine.runsTo_of_run hs)⟩

end AzcoinPool
