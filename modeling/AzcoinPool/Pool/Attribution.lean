import AzcoinPool.Pool.Steps
import AzcoinPool.Sv1.Authorization

/-!
# Attribution of shares

A session of the pool goes through the connection states of the requests it has read
(`follows_of_runsTo`), so what holds behind any inputs of a connection holds of a session in the
pool. With it a share in `on_submit` is attributed to the user name authorized last on its session,
and the worker registry has that worker (`attributed_of_runsTo`).
-/

namespace AzcoinPool

variable {env : PoolEnv} {parseJson : String → Option Sv1Request}

/-! ## The inputs of a session -/

/-- The share an `on_submit` is about. -/
def SubmitStage.share : SubmitStage → ShareSubmission
  | .lookup share => share
  | .recording share _ _ => share
  | .reporting share _ _ => share
  | .relookup share _ => share
  | .fetching share _ _ => share
  | .submitting share _ _ => share

/-- Where `on_submit` stands. -/
def SessionPc.submitStage : SessionPc → Option SubmitStage
  | .submitting _ stage => some stage
  | _ => none

theorem SessionPc.submitStage_eq_some {pc : SessionPc} {stage : SubmitStage} :
    pc.submitStage = some stage ↔ ∃ id, pc = .submitting id stage := by
  cases pc <;> simp [submitStage]

@[simp] theorem SubmitStage.share_start (share : ShareSubmission) :
    (start share).share = share := by
  unfold start
  split <;> rfl

@[simp] theorem respond_ne_authorizing (env : PoolEnv) (response : Sv1Response)
    (notify : Option Job) (id : Option Value) (username : String) :
    respond env response notify ≠ .authorizing id username := by
  cases notify <;> simp [respond]

/-- The requests that were read and are not yet answered, by where a session stands. -/
def SessionPc.Handles (inputs : List ConnectionInput) (unanswered : List Sv1Request) :
    SessionPc → Prop
  | .authorizing id username => ∃ req, unanswered = [req] ∧ id = req.id ∧
      req.method = "mining.authorize" ∧ req.username = some username
  | .submitting id stage => ∃ req next, unanswered = [req] ∧
      dispatchRequest next (SessionState.run inputs) req = .onSubmit id stage.share
  | .ended => True
  | _ => unanswered = []

theorem handles_respond (inputs : List ConnectionInput) (response : Sv1Response)
    (notify : Option Job) : (respond env response notify).Handles inputs [] := by
  cases notify <;> rfl

/-- A session is in the connection state of the inputs, which are its requests up to the unanswered
one, with its notifications in between. -/
structure Session.Follows (parseJson : String → Option Sv1Request) (x : Session)
    (inputs : List ConnectionInput) (unanswered : List Sv1Request) : Prop where
  state : x.state = SessionState.run inputs
  requests : x.parsed.filterMap parseJson =
    inputs.filterMap ConnectionInput.request? ++ unanswered
  handles : x.pc.Handles inputs unanswered

namespace Session.Follows

variable {x : Session} {inputs : List ConnectionInput} {unanswered : List Sv1Request}

/-- A session that waits or writes has answered all it has read. -/
theorem eq_nil (h : x.Follows parseJson inputs unanswered)
    (hpc : x.pc = .select ∨ (∃ job, x.pc = .registering job) ∨
      ∃ line rest notify, x.pc = .writing line rest notify) : unanswered = [] := by
  have hhandles := h.handles
  rcases hpc with hpc | ⟨job, hpc⟩ | ⟨line, rest, notify, hpc⟩ <;> rw [hpc] at hhandles <;>
    exact hhandles

/-- A session that reads a request has read those of its inputs and that one. -/
theorem requests_read (h : x.Follows parseJson inputs []) {line : String} {req : Sv1Request}
    (hparse : parseJson line = some req) :
    (x.parsed ++ [line]).filterMap parseJson =
      inputs.filterMap ConnectionInput.request? ++ [req] := by
  rw [List.filterMap_append, h.requests, List.append_nil, List.filterMap_cons_some hparse,
    List.filterMap_nil]

/-- `on_submit` returns, and the session has answered the submission. -/
theorem finish (h : x.Follows parseJson inputs unanswered) (env : PoolEnv) {id : Option Value}
    {stage : SubmitStage} (hpc : x.pc = .submitting id stage) (result : ShareResult) :
    ∃ inputs', (x.finish env id result).Follows parseJson inputs' [] := by
  have hhandles := h.handles
  rw [hpc] at hhandles
  obtain ⟨req, next, rfl, hdispatch⟩ := hhandles
  refine ⟨inputs ++ [.request req next (.ok none)], ?_, ?_, rfl⟩
  · rw [SessionState.run_append_singleton, SessionState.input, hdispatch]
    exact h.state
  · rw [List.filterMap_append, List.append_nil]
    exact h.requests

/-- A step inside `on_submit` keeps to its share. -/
theorem stage (h : x.Follows parseJson inputs unanswered) {id : Option Value}
    {stage stage' : SubmitStage} (hpc : x.pc = .submitting id stage)
    (hshare : stage'.share = stage.share) :
    Session.Follows parseJson { x with pc := .submitting id stage' } inputs unanswered := by
  have hhandles := h.handles
  rw [hpc] at hhandles
  refine ⟨h.state, h.requests, ?_⟩
  obtain ⟨req, next, hreq, hdispatch⟩ := hhandles
  exact ⟨req, next, hreq, by rw [hshare]; exact hdispatch⟩

/-- Behind a step the session follows the inputs, or the inputs with one more. -/
theorem step (h : x.Follows parseJson inputs unanswered) {shared shared' : Shared} {x' : Session}
    {e : SessionEvent} (hstep : StepTo env parseJson shared x e shared' x') :
    ∃ inputs' unanswered', x'.Follows parseJson inputs' unanswered' := by
  cases hstep with
  | arrive | peerClose | readPending | readBlank | recvLagged | recvSkip =>
    exact ⟨inputs, unanswered, h.state, h.requests, h.handles⟩
  | readEnd | panicked | writeFailed => exact ⟨inputs, unanswered, h.state, h.requests, trivial⟩
  | recvNotify pc _ _ _ =>
    exact ⟨inputs, unanswered, h.state, h.requests, h.eq_nil (.inl pc)⟩
  | readInvalid pc _ _ _ parse =>
    obtain rfl := h.eq_nil (.inl pc)
    refine ⟨inputs, [], h.state, ?_, rfl⟩
    rw [List.filterMap_append, h.requests, List.append_nil]
    simp [parse]
  | @readDone _ _ _ req next state response pc _ _ _ parse dispatch =>
    obtain rfl := h.eq_nil (.inl pc)
    refine ⟨inputs ++ [.request req shared.nextExtranonce1 (.ok none)], [], ?_, ?_, rfl⟩
    · rw [SessionState.run_append_singleton, SessionState.input, ← h.state, dispatch]
    · rw [h.requests_read parse, List.filterMap_append, List.append_nil]
      rfl
  | @readAuthorize _ _ _ req id username pc _ _ _ parse dispatch =>
    obtain rfl := h.eq_nil (.inl pc)
    obtain ⟨rfl, hmethod, hname⟩ := dispatchRequest_eq_onAuthorize.mp dispatch
    exact ⟨inputs, [req], h.state, h.requests_read parse, req, rfl, rfl, hmethod, hname⟩
  | @readSubmit _ _ _ req id share pc _ _ _ parse dispatch =>
    obtain rfl := h.eq_nil (.inl pc)
    rw [h.state] at dispatch
    refine ⟨inputs, [req], h.state, h.requests_read parse, req, shared.nextExtranonce1, rfl, ?_⟩
    rw [SubmitStage.share_start]
    exact dispatch
  | @authorized template id username pc =>
    have hhandles := h.handles
    rw [pc] at hhandles
    obtain ⟨req, rfl, rfl, hmethod, hname⟩ := hhandles
    refine ⟨inputs ++ [.request req 0 (.ok (env.currentJob template))], [], ?_, ?_,
      handles_respond _ _ _⟩
    · rw [SessionState.run_append_singleton, SessionState.input,
        dispatchRequest_eq_onAuthorize.mpr ⟨rfl, hmethod, hname⟩, ← h.state]
      rfl
    · rw [List.filterMap_append, List.append_nil]
      exact h.requests
  | notSubmitted pc _ | reported pc _ | relookupNone pc _ | blockSubmitted pc =>
    obtain ⟨inputs', hfinish⟩ := h.finish env pc _
    exact ⟨inputs', [], hfinish⟩
  | submitted pc _ | lookup pc | recorded pc | reportedBlock pc | relookup pc _ =>
    exact ⟨inputs, unanswered, h.stage pc rfl⟩
  | registered pc => exact ⟨inputs, unanswered, h.state, h.requests, h.eq_nil (.inr (.inl ⟨_, pc⟩))⟩
  | wroteNext pc | wroteResponse pc =>
    exact ⟨inputs, unanswered, h.state, h.requests, h.eq_nil (.inr (.inr ⟨_, _, _, pc⟩))⟩
  | @wroteNotify _ job pc =>
    refine ⟨inputs ++ [.notified job.jobId], unanswered, ?_, ?_,
      h.eq_nil (.inr (.inr ⟨_, _, _, pc⟩))⟩
    · rw [SessionState.run_append_singleton, ← h.state]
      rfl
    · rw [List.filterMap_append]
      exact h.requests.trans (by simp [ConnectionInput.request?])

end Session.Follows

/-- Behind every run, a session is in the connection state of the requests it has read. -/
theorem follows_of_runsTo {Ok : Pool → Event → Prop} {es : List Event} {p : Pool}
    (h : (poolMachine env parseJson).RunsTo Ok es p) {s : Nat} {x : Session}
    (hx : p.sessions[s]? = some x) :
    ∃ inputs unanswered, x.Follows parseJson inputs unanswered := by
  refine session_invariant
    (I := fun x => ∃ inputs unanswered, x.Follows parseJson inputs unanswered)
    ⟨[], [], rfl, rfl, rfl⟩ ?_ ?_ h hx
  · rintro es p x x' e shared - - - ⟨inputs, unanswered, hfollows⟩ hstep
    exact hfollows.step hstep
  · rintro x template job ⟨inputs, unanswered, hfollows⟩ -
    exact ⟨inputs, unanswered, hfollows.state, hfollows.requests, hfollows.handles⟩

/-! ## The worker registry -/

/-- The registry has the worker of the user name. -/
def WorkerRegistry.Has (workers : WorkerRegistry) (username : String) : Prop :=
  workers username = some (WorkerIdentity.new username)

theorem WorkerRegistry.has_register (workers : WorkerRegistry) (username : String) :
    (workers.register (WorkerIdentity.new username)).Has username := by
  simp [Has, register]

/-- A registration of a worker keeps the others. -/
theorem WorkerRegistry.Has.register {workers : WorkerRegistry} {username : String}
    (h : workers.Has username) (other : String) :
    (workers.register (WorkerIdentity.new other)).Has username := by
  by_cases hother : username = other
  · subst hother
    exact workers.has_register username
  · unfold Has WorkerRegistry.register
    rw [WorkerIdentity.id_new, Function.update_of_ne hother]
    exact h

/-- A step registers a worker at most. -/
theorem Session.StepTo.has_workers {shared shared' : Shared} {x x' : Session} {e : SessionEvent}
    (h : StepTo env parseJson shared x e shared' x') {username : String}
    (hhas : shared.workers.Has username) : shared'.workers.Has username := by
  cases h with
  | readAuthorize => exact hhas.register _
  | _ => exact hhas

/-- The registry has the worker of the session, or the one it is authorizing. -/
structure Session.WorkersRegistered (shared : Shared) (x : Session) : Prop where
  authorized : ∀ worker ∈ x.state.authorizedWorker,
    ∃ u, worker = WorkerIdentity.new u ∧ shared.workers.Has u
  authorizing : ∀ id u, x.pc = .authorizing id u → shared.workers.Has u

theorem Session.WorkersRegistered.step {shared shared' : Shared} {x x' : Session} {e : SessionEvent}
    (h : x.WorkersRegistered shared) (hstep : StepTo env parseJson shared x e shared' x') :
    x'.WorkersRegistered shared' := by
  cases hstep with
  | arrive | peerClose | readPending | readBlank | recvLagged | recvSkip =>
    exact ⟨h.authorized, h.authorizing⟩
  | readDone _ _ _ _ _ dispatch =>
    refine ⟨?_, by simp⟩
    rcases dispatchRequest_eq_done dispatch with ⟨-, negotiated, rfl⟩ | ⟨-, -, rfl⟩ <;>
      exact h.authorized
  | @readAuthorize _ _ _ _ _ username _ _ _ _ _ _ =>
    refine ⟨?_, ?_⟩
    · intro worker hworker
      obtain ⟨u, hu, hhas⟩ := h.authorized worker hworker
      exact ⟨u, hu, hhas.register username⟩
    · rintro id u ⟨⟩
      exact shared.workers.has_register username
  | @authorized template id username pc =>
    refine ⟨?_, by simp⟩
    rintro worker ⟨⟩
    exact ⟨username, rfl, h.authorizing id username pc⟩
  | _ => exact ⟨h.authorized, by simp [finish]⟩

/-- Behind every run the worker registry has the workers of the sessions. -/
theorem workersRegistered_of_runsTo {Ok : Pool → Event → Prop} {es : List Event} {p : Pool}
    (h : (poolMachine env parseJson).RunsTo Ok es p) {s : Nat} {x : Session}
    (hx : p.sessions[s]? = some x) : x.WorkersRegistered p.shared := by
  refine shared_invariant (I := fun shared x => x.WorkersRegistered shared)
    (fun _ => ⟨by simp, by simp⟩) (fun _ _ _ h hstep => h.step hstep) ?_ ?_ h hx
  · intro x y y' e shared shared' hregistered hstep
    refine ⟨fun worker hworker => ?_, fun id u hpc => ?_⟩
    · obtain ⟨u, hu, hhas⟩ := hregistered.authorized worker hworker
      exact ⟨u, hu, hstep.has_workers hhas⟩
    · exact hstep.has_workers (hregistered.authorizing id u hpc)
  · exact fun hregistered _ => ⟨hregistered.authorized, hregistered.authorizing⟩

/-! ## Attribution -/

/-- On a connection, whatever the handler answers, a share that is passed to `on_submit` is
attributed to the user name that the submission carries and that was accepted last. In the pool this
holds of the share a session has in `on_submit`, and the registry has its worker. -/
theorem attributed_of_runsTo :
    (∀ (inputs : List ConnectionInput) (next : UInt32) (req : Sv1Request) (share : ShareSubmission),
      (dispatchRequest next (SessionState.run inputs) req).submitted = some share →
        Attributed inputs req share) ∧
    ∀ (Ok : Pool → Event → Prop) (es : List Event) (p : Pool) (s : Nat) (x : Session)
      (id : Option Value) (stage : SubmitStage), (poolMachine env parseJson).RunsTo Ok es p →
        p.sessions[s]? = some x → x.pc = .submitting id stage →
          (∃ inputs req, x.state = SessionState.run inputs ∧
            x.parsed.filterMap parseJson = inputs.filterMap ConnectionInput.request? ++ [req] ∧
              Attributed inputs req stage.share) ∧
            p.shared.workers stage.share.worker.id = some stage.share.worker := by
  refine ⟨fun inputs next req share h => attributed_of_submitted h, ?_⟩
  intro Ok es p s x id stage run hx hpc
  obtain ⟨inputs, unanswered, hfollows⟩ := follows_of_runsTo run hx
  have hhandles := hfollows.handles
  rw [hpc] at hhandles
  obtain ⟨req, next, rfl, hdispatch⟩ := hhandles
  have hsubmitted : (dispatchRequest next (SessionState.run inputs) req).submitted =
      some stage.share := by
    rw [hdispatch]
    rfl
  have hattributed := attributed_of_submitted hsubmitted
  refine ⟨⟨inputs, req, hfollows.state, hfollows.requests, hattributed⟩, ?_⟩
  obtain ⟨worker, _, _, _, _, _, hworker, -, hshare⟩ := eq_of_dispatch_onSubmit hsubmitted
  obtain ⟨u, hu, hhas⟩ := (workersRegistered_of_runsTo run hx).authorized worker
    (by rw [hfollows.state]; exact hworker)
  rw [hshare]
  show p.shared.workers worker.id = some worker
  rw [hu]
  exact hhas

/-- A share on a connection that was authorized twice, and one in the pool. -/
theorem attributed_fixture :
    (∃ share, Attributed [.request authorizeRequest 1 (.ok none),
        .request authorizeRequest 1 (.error "no")] (submitRequest "11223344") share) ∧
    ∃ p x id stage, (poolMachine fixtureEnv fixtureJson).run ([.connect] ++
        handshake 0 (fixtureTemplate []) ++ sendLine 0 submitLine) = some p ∧
      p.sessions[0]? = some x ∧ x.pc = .submitting id stage ∧
      p.shared.workers stage.share.worker.id = some stage.share.worker := by
  constructor
  · have hsubmit : (dispatchRequest 1 (SessionState.run [.request authorizeRequest 1 (.ok none),
        .request authorizeRequest 1 (.error "no")])
        (submitRequest "11223344")).submitted.isSome = true := by
      decide +kernel
    obtain ⟨share, hshare⟩ := Option.isSome_iff_exists.mp hsubmit
    exact ⟨share, (@attributed_of_runsTo fixtureEnv fixtureJson).1 _ _ _ _ hshare⟩
  · have hrun : ((poolMachine fixtureEnv fixtureJson).run ([.connect] ++
        handshake 0 (fixtureTemplate []) ++ sendLine 0 submitLine)).any (fun p =>
          p.sessions[0]?.any fun x => x.pc.submitStage.isSome) = true := by
      decide +kernel
    obtain ⟨p, hp, hany⟩ := (Option.any_eq_true _ _).mp hrun
    obtain ⟨x, hx, hsome⟩ := (Option.any_eq_true _ _).mp hany
    obtain ⟨stage, hstage⟩ := Option.isSome_iff_exists.mp hsome
    obtain ⟨id, hpc⟩ := SessionPc.submitStage_eq_some.mp hstage
    exact ⟨p, x, id, stage, hp, hx, hpc,
      (attributed_of_runsTo.2 _ _ p 0 x id stage (Machine.runsTo_of_run hp) hx hpc).2⟩

end AzcoinPool
