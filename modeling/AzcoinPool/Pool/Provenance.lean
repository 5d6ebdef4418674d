import AzcoinPool.Pool.Steps

/-!
# Where jobs come from

A job enters the pool in an answer of the daemon. From there it goes into the queues of the
sessions, to the miners, into the registry and, looked up for a share, into an `on_submit`. A
property that the jobs of all answers have is had by every job the pool holds anywhere
(`holds_of_runsTo`), so every one of them is mapped from a template that was answered in the run
(`answered_of_runsTo`).
-/

namespace AzcoinPool

variable {env : PoolEnv} {parseJson : String → Option Sv1Request} {P : Job → Prop}

/-! ## The answers of a run -/

/-- The template the daemon answers with. -/
def SessionEvent.template : SessionEvent → Option BlockTemplate
  | .currentJob (.ok template) => template
  | _ => none

/-- The template the daemon answers with, to the poller or to a session. -/
def Event.template : Event → Option BlockTemplate
  | .poll (.ok template) => template
  | .session _ e => e.template
  | _ => none

/-- The templates the daemon answered with in a run. -/
def answers (es : List Event) : List BlockTemplate := es.filterMap Event.template

/-- The jobs `current_job` returned in a run have the property. -/
def SourceMeets (env : PoolEnv) (P : Job → Prop) (es : List Event) : Prop :=
  ∀ template ∈ answers es, ∀ job, env.currentJob (.ok (some template)) = some job → P job

theorem sourceMeets_append_singleton {es : List Event} {e : Event} :
    SourceMeets env P (es ++ [e]) ↔ SourceMeets env P es ∧ ∀ template ∈ e.template, ∀ job,
      env.currentJob (.ok (some template)) = some job → P job := by
  simp only [SourceMeets, answers, List.filterMap_append, List.forall_mem_append]
  cases h : e.template <;> simp [h]

/-- A job is returned only for an answer that is a template. -/
theorem PoolEnv.exists_of_currentJob {answer : Except PoolError (Option BlockTemplate)} {job : Job}
    (h : env.currentJob answer = some job) : ∃ template, answer = .ok (some template) := by
  cases answer with
  | error e => cases h
  | ok template =>
    cases template with
    | none => cases h
    | some template => exact ⟨template, rfl⟩

/-- What a job is mapped from: the template, and the payout script that is configured. -/
theorem PoolEnv.currentJob_eq_some {template : BlockTemplate} {job : Job} :
    env.currentJob (.ok (some template)) = some job ↔
      ∃ payout, env.payoutScriptPubkey = some payout ∧
        templateToJob env.bitcoin template payout = .ok job := by
  simp only [currentJob, rpcCurrentJob]
  cases env.payoutScriptPubkey with
  | none => simp
  | some payout =>
    simp only [Option.some.injEq, exists_eq_left']
    cases templateToJob env.bitcoin template payout <;> simp [Except.toOption]

/-! ## The jobs a pool holds -/

/-- The jobs an `on_submit` goes by. -/
def SubmitStage.jobs : SubmitStage → List Job
  | .lookup _ => []
  | .recording _ _ validated => validated.toList
  | .reporting _ _ validated => validated.toList
  | .relookup _ validated => validated.toList
  | .fetching _ job validated => job :: validated.toList
  | .submitting _ _ validated => validated.toList

/-- The jobs a session has in hand. -/
def SessionPc.jobs : SessionPc → List Job
  | .submitting _ stage => stage.jobs
  | .writing _ _ notify => notify.toList
  | .registering job => [job]
  | _ => []

/-- Every job of the session has the property. -/
structure Session.Holds (P : Job → Prop) (x : Session) : Prop where
  queue : ∀ job ∈ x.receiver.queue, P job
  pc : ∀ job ∈ x.pc.jobs, P job
  notified : ∀ job ∈ x.notified, P job

/-- The candidate of a submission is built on a job of the property. -/
def BlockSubmission.From (env : PoolEnv) (P : Job → Prop) (sub : BlockSubmission) : Prop :=
  (∀ job ∈ sub.validated, P job) ∧
    ∃ job current, P job ∧
      maybeSubmitStep env job current sub.share = some (.submitBlock sub.candidate)

/-- Every job that is shared has the property. -/
structure Shared.Holds (env : PoolEnv) (P : Job → Prop) (shared : Shared) : Prop where
  registry : ∀ id job, shared.registry.getJob id = some job → P job
  submitted : ∀ sub ∈ shared.submitted, sub.From env P

/-- Every job of the pool has the property. -/
structure Pool.Holds (env : PoolEnv) (P : Job → Prop) (p : Pool) : Prop where
  shared : p.shared.Holds env P
  broadcast : ∀ job ∈ p.poller.broadcast, P job
  sessions : ∀ x ∈ p.sessions, x.Holds P

@[simp] theorem SubmitStage.jobs_start (share : ShareSubmission) :
    (SubmitStage.start share).jobs = [] := by
  rw [start]
  split <;> rfl

@[simp] theorem SessionPc.jobs_respond (env : PoolEnv) (response : Sv1Response)
    (notify : Option Job) : (respond env response notify).jobs = notify.toList := by
  cases notify <;> rfl

namespace Session.Holds

variable {x : Session}

/-- What a session takes out of its queue it held. -/
theorem recv (h : x.Holds P) {out : Recv} {receiver : Receiver}
    (hrecv : x.receiver.recv = some (out, receiver)) :
    (∀ job, out = .job job → P job) ∧ ∀ job ∈ receiver.queue, P job := by
  obtain ⟨hjob, hqueue⟩ := Receiver.recv_eq_some hrecv
  exact ⟨fun job heq => h.queue job (hjob job heq), fun job hmem => h.queue job (hqueue job hmem)⟩

/-- A session at another point of its program, with jobs of the property in hand. -/
theorem withPc (h : x.Holds P) {pc : SessionPc} (hpc : ∀ job ∈ pc.jobs, P job) :
    { x with pc := pc }.Holds P :=
  ⟨h.queue, hpc, h.notified⟩

/-- A job that is broadcast is one more in the queue. -/
theorem push (h : x.Holds P) {job : Job} (hjob : P job) :
    { x with receiver := x.receiver.push job }.Holds P := by
  refine ⟨fun j hj => ?_, h.pc, h.notified⟩
  obtain hj | rfl := Receiver.mem_queue_of_mem_push hj
  · exact h.queue j hj
  · exact hjob

/-- A step of a session holds on to the property, if the job of the answer in it has it. -/
theorem step (h : x.Holds P) {shared shared' : Shared} {x' : Session} {e : SessionEvent}
    (hshared : shared.Holds env P)
    (hsource : ∀ template ∈ e.template, ∀ job,
      env.currentJob (.ok (some template)) = some job → P job)
    (hstep : StepTo env parseJson shared x e shared' x') :
    shared'.Holds env P ∧ x'.Holds P := by
  cases hstep with
  | arrive | peerClose | readPending | readBlank => exact ⟨hshared, h.queue, h.pc, h.notified⟩
  | readEnd | panicked | writeFailed | readAuthorize | readSubmit =>
    refine ⟨⟨hshared.registry, hshared.submitted⟩, h.queue, ?_, h.notified⟩
    simp [SessionPc.jobs]
  | readInvalid | readDone | notSubmitted | reported | relookupNone | blockSubmitted =>
    refine ⟨⟨hshared.registry, hshared.submitted⟩, h.queue, ?_, h.notified⟩
    simp [finish]
  | recvLagged _ recv | recvSkip _ recv _ => exact ⟨hshared, (h.recv recv).2, h.pc, h.notified⟩
  | recvNotify _ recv _ _ =>
    obtain ⟨hjob, hqueue⟩ := h.recv recv
    refine ⟨hshared, hqueue, ?_, h.notified⟩
    simpa [SessionPc.jobs] using hjob _ rfl
  | @authorized answer id username pc =>
    refine ⟨hshared, h.queue, fun job hjob => ?_, h.notified⟩
    rw [SessionPc.jobs_respond, Option.mem_toList] at hjob
    obtain ⟨template, rfl⟩ := PoolEnv.exists_of_currentJob hjob
    exact hsource template rfl job hjob
  | submitted pc step =>
    have hpc := h.pc
    simp only [pc, SessionPc.jobs, SubmitStage.jobs, List.forall_mem_cons] at hpc
    obtain ⟨hjob, hvalidated⟩ := hpc
    refine ⟨⟨hshared.registry, ?_⟩, h.withPc hvalidated⟩
    simp only [List.forall_mem_append, List.forall_mem_singleton]
    exact ⟨hshared.submitted, fun j hj => hvalidated j (Option.mem_toList.mpr hj), _, _, hjob, step⟩
  | lookup pc =>
    refine ⟨hshared, h.withPc fun job hjob => ?_⟩
    exact hshared.registry _ job (Option.mem_toList.mp hjob)
  | recorded pc | reportedBlock pc =>
    have hpc := h.pc
    rw [pc] at hpc
    exact ⟨⟨hshared.registry, hshared.submitted⟩, h.withPc hpc⟩
  | relookup pc get =>
    have hpc := h.pc
    rw [pc] at hpc
    exact ⟨hshared, h.withPc (List.forall_mem_cons.mpr ⟨hshared.registry _ _ get, hpc⟩)⟩
  | @registered job pc =>
    have hpc := h.pc
    simp only [pc, SessionPc.jobs, List.forall_mem_singleton] at hpc
    refine ⟨⟨fun id j hj => ?_, hshared.submitted⟩, h.withPc (by simp [SessionPc.jobs])⟩
    obtain ⟨-, rfl⟩ | hj := ActiveJobRegistry.getJob_register_eq_some hj
    · exact hpc
    · exact hshared.registry id j hj
  | wroteNext pc | wroteResponse pc =>
    have hpc := h.pc
    rw [pc] at hpc
    exact ⟨hshared, h.queue, hpc, h.notified⟩
  | wroteNotify pc =>
    have hpc := h.pc
    simp only [pc, SessionPc.jobs, Option.toList_some, List.forall_mem_singleton] at hpc
    refine ⟨hshared, h.queue, by simpa [SessionPc.jobs] using hpc, ?_⟩
    simp only [List.forall_mem_append, List.forall_mem_singleton]
    exact ⟨h.notified, hpc⟩

end Session.Holds

namespace Pool.Holds

variable {p p' : Pool}

/-- A turn of the poller on a job of the property. -/
theorem poll (h : p.Holds env P) {job? : Option Job} (hjob : ∀ job ∈ job?, P job) :
    (p.poll job?).Holds env P := by
  unfold Pool.poll
  split
  · exact h
  · next job =>
    have hjob : P job := hjob job rfl
    split
    · refine ⟨h.shared, ?_, fun x hx => ?_⟩
      · simp only [Poller.send, List.forall_mem_append, List.forall_mem_singleton]
        exact ⟨h.broadcast, hjob⟩
      · obtain ⟨s, hs⟩ := List.mem_iff_getElem?.mp hx
        obtain ⟨y, hy, rfl | rfl⟩ := Pool.broadcast_eq_some hs
        · exact h.sessions x (List.mem_of_getElem? hy)
        · exact (h.sessions y (List.mem_of_getElem? hy)).push hjob
    · exact h

theorem connect (h : p.Holds env P) :
    { p with sessions := p.sessions ++ [({} : Session)] }.Holds env P := by
  refine ⟨h.shared, h.broadcast, ?_⟩
  simp only [List.forall_mem_append, List.forall_mem_singleton]
  exact ⟨h.sessions, by simp, by simp [SessionPc.jobs], by simp⟩

/-- A session goes on to another one of the property, and so does what is shared. -/
theorem setSession (h : p.Holds env P) {shared : Shared} {x : Session}
    (hx : shared.Holds env P ∧ x.Holds P) (i : Nat) :
    { p with shared := shared, sessions := p.sessions.set i x }.Holds env P := by
  refine ⟨hx.1, h.broadcast, fun y hy => ?_⟩
  rcases List.mem_or_eq_of_mem_set hy with hy | rfl
  · exact h.sessions y hy
  · exact hx.2

/-- A step of the pool holds on to the property, if the job of the answer in it has it. -/
theorem step {e : Event} (h : p.Holds env P)
    (hsource : ∀ template ∈ e.template, ∀ job,
      env.currentJob (.ok (some template)) = some job → P job)
    (hstep : p.step env parseJson e = some p') : p'.Holds env P := by
  cases e with
  | poll answer =>
    cases hstep
    refine h.poll fun job hjob => ?_
    obtain ⟨template, rfl⟩ := PoolEnv.exists_of_currentJob hjob
    exact hsource template rfl job hjob
  | connect =>
    cases hstep
    exact h.connect
  | session i e =>
    cases Pool.step_cases hstep with
    | session get hrule =>
      exact h.setSession ((h.sessions _ (List.mem_of_getElem? get)).step h.shared hsource hrule) i

end Pool.Holds

/-- What the jobs of the answers in a run all have, the jobs the pool holds behind it all have. -/
theorem holds_of_runsTo {Ok : Pool → Event → Prop} {es : List Event} {p : Pool}
    (h : (poolMachine env parseJson).RunsTo Ok es p) (hsource : SourceMeets env P es) :
    p.Holds env P := by
  induction h with
  | nil => exact ⟨⟨by simp [poolMachine], by simp [poolMachine]⟩, by simp [poolMachine],
      by simp [poolMachine]⟩
  | @snoc es p p' e run ok step ih =>
    rw [sourceMeets_append_singleton] at hsource
    exact (ih hsource.1).step hsource.2 step

/-- The job is mapped from a template that was answered in the run, with the payout script that is
configured. -/
def IsAnswered (env : PoolEnv) (es : List Event) (job : Job) : Prop :=
  ∃ template ∈ answers es, ∃ payout, env.payoutScriptPubkey = some payout ∧
    templateToJob env.bitcoin template payout = .ok job

/-- Every job the pool holds is mapped from a template that was answered in the run. -/
theorem answered_of_runsTo {Ok : Pool → Event → Prop} {es : List Event} {p : Pool}
    (h : (poolMachine env parseJson).RunsTo Ok es p) : p.Holds env (IsAnswered env es) :=
  holds_of_runsTo h fun template htemplate _ hjob =>
    ⟨template, htemplate, PoolEnv.currentJob_eq_some.mp hjob⟩

end AzcoinPool
