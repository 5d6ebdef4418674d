import AzcoinPool.Pool.Handler
import AzcoinPool.Sv1.Dispatch
import AzcoinPool.Sv1.LineReader
import AzcoinPool.Sv1.Notify

/-!
# A session

`handle_sv1_session` with the handler behind it, as a state machine cut at its awaits: waiting in
`select!`, in a call of the handler, writing a line, registering a job. `Session.step` is one step
of a session together with what the sessions share.
-/

namespace AzcoinPool

/-! ## The broadcast channel -/

/-- The capacity of the job channel. -/
def jobChannelCapacity : Nat := 16

/-- A receiver of `tokio::sync::broadcast`: the jobs it has yet to see, and how many it has missed
since its last `recv`. -/
structure Receiver where
  queue : List Job := []
  missed : Nat := 0

/-- A job is sent; the oldest job goes when the channel is full. -/
def Receiver.push (r : Receiver) (job : Job) : Receiver :=
  if jobChannelCapacity ≤ r.queue.length then ⟨(r.queue ++ [job]).tail, r.missed + 1⟩
  else ⟨r.queue ++ [job], r.missed⟩

/-- What `recv` returns. -/
inductive Recv where
  | job (job : Job)
  | lagged (skipped : Nat)

/-- `recv`, when it is ready. -/
def Receiver.recv (r : Receiver) : Option (Recv × Receiver) :=
  if r.missed ≠ 0 then some (.lagged r.missed, ⟨r.queue, 0⟩)
  else
    match r.queue with
    | [] => none
    | job :: queue => some (.job job, ⟨queue, 0⟩)

/-! ## The session -/

/-- A line a session writes. -/
inductive SentLine where
  | response (response : Sv1Response)
  | notification (value : Value)

/-- Where a session stands. -/
inductive SessionPc where
  /-- Waiting in `select!`. -/
  | select
  /-- In `on_authorize`, awaiting `current_job`. -/
  | authorizing (id : Option Value) (username : String)
  /-- In `on_submit`. -/
  | submitting (id : Option Value) (stage : SubmitStage)
  /-- Writing a line; `rest` are the lines behind it, and the last of them is the notification of
  `notify`, if there is one. -/
  | writing (line : SentLine) (rest : List SentLine) (notify : Option Job)
  /-- In `on_notify_sent`. -/
  | registering (job : Job)
  /-- The session is over. -/
  | ended

/-- A session. The program does not keep the last four fields; they are the session's history. -/
structure Session where
  reader : LineReader := {}
  state : SessionState := {}
  receiver : Receiver := {}
  pc : SessionPc := .select
  /-- The bytes that have arrived. -/
  arrived : Bytes := []
  /-- The lines that were passed to JSON parsing. -/
  parsed : List String := []
  /-- The lines that were written. -/
  written : List SentLine := []
  /-- The jobs whose `mining.notify` was written. -/
  notified : List Job := []

/-- A call of `BlockSubmitter::submit_block`. -/
structure BlockSubmission where
  share : ShareSubmission
  candidate : BlockCandidate
  /-- The job the share was validated against. -/
  validated : Option Job

/-- `InMemoryWorkerRegistry`. -/
abbrev WorkerRegistry := String → Option WorkerIdentity

def WorkerRegistry.register (workers : WorkerRegistry) (worker : WorkerIdentity) :
    WorkerRegistry :=
  Function.update workers worker.id (some worker)

/-- What the sessions share. -/
structure Shared where
  registry : ActiveJobRegistry := .new
  nextExtranonce1 : UInt32 := 1
  workers : WorkerRegistry := fun _ => none
  records : ShareRecords := ⟨[], []⟩
  /-- The calls of the block submitter. -/
  submitted : List BlockSubmission := []

/-- What can happen to a session. -/
inductive SessionEvent where
  /-- Bytes arrive on the socket. -/
  | arrive (bytes : Bytes)
  /-- The peer closes its side. -/
  | peerClose
  /-- `select!` polls the read branch. -/
  | pollRead
  /-- The broadcast branch of `select!` is ready and wins. -/
  | pollRecv
  /-- `current_job` returns, given the answer of the daemon. -/
  | currentJob (template : Except PoolError (Option BlockTemplate))
  /-- A lock, a buffer or the share sink lets the session go on. -/
  | proceed
  /-- `submit_block` returns. -/
  | blockSubmitted (result : Except String Bool)
  /-- The write of a line ends. -/
  | written (ok : Bool)

/-! ## The step -/

/-- The lines of `send_job_notify`. -/
def notifyLines (env : PoolEnv) (job : Job) : SentLine × SentLine :=
  (.notification (buildSetDifficultyNotification env.initialDifficulty),
    .notification (buildMiningNotify job))

/-- Writes a response, and a notification behind it when there is a job. -/
def respond (env : PoolEnv) (response : Sv1Response) : Option Job → SessionPc
  | none => .writing (.response response) [] none
  | some job =>
    .writing (.response response) [(notifyLines env job).1, (notifyLines env job).2] (some job)

namespace Session

/-- A request is dispatched up to its first await. -/
def startRequest (env : PoolEnv) (shared : Shared) (x : Session) (req : Sv1Request) :
    Shared × Session :=
  match dispatchRequest shared.nextExtranonce1 x.state req with
  | .done nextExtranonce1 state response =>
    ({ shared with nextExtranonce1 := nextExtranonce1 },
      { x with state := state, pc := respond env response none })
  | .onAuthorize id username =>
    -- `on_authorize` registers the worker and then awaits `current_job`
    ({ shared with workers := shared.workers.register (WorkerIdentity.new username) },
      { x with pc := .authorizing id username })
  | .onSubmit id share => (shared, { x with pc := .submitting id (.start share) })

/-- A line that was read is trimmed and, unless blank, parsed; `parseJson` is
`serde_json::from_str`. -/
def handleLine (env : PoolEnv) (parseJson : String → Option Sv1Request) (shared : Shared)
    (x : Session) (line : String) : Shared × Session :=
  let trimmed := trim line
  if trimmed = "" then (shared, x)
  else
    let x := { x with parsed := x.parsed ++ [trimmed] }
    match parseJson trimmed with
    | none =>
      (shared, { x with pc := respond env (buildErrorResponse none (-32700) "Parse error") none })
    | some req => x.startRequest env shared req

/-- The read branch of `select!` is polled. -/
def pollRead (env : PoolEnv) (parseJson : String → Option Sv1Request) (shared : Shared)
    (x : Session) : Shared × Session :=
  match x.reader.poll with
  | (reader, none) => (shared, { x with reader := reader })
  | (reader, some bytes) =>
    let x := { x with reader := reader }
    match fromUtf8 bytes with
    | none => (shared, { x with pc := .ended })
    | some line =>
      if bytes = [] then (shared, { x with pc := .ended })
      else x.handleLine env parseJson shared line

/-- The broadcast branch of `select!` wins with a job. -/
def onBroadcast (env : PoolEnv) (x : Session) (job : Job) : Session :=
  if x.state.authorizedWorker.isNone then x
  else if x.state.lastNotifyJobId = some job.jobId then x
  else { x with pc := .writing (notifyLines env job).1 [(notifyLines env job).2] (some job) }

/-- The broadcast branch of `select!` wins; the `read_line` future of the other branch is
dropped. -/
def pollRecv (env : PoolEnv) (x : Session) : Option Session :=
  match x.receiver.recv with
  | none => none
  | some (.lagged _, receiver) =>
    some { x with receiver := receiver, reader := x.reader.cancel }
  | some (.job job, receiver) =>
    some ({ x with receiver := receiver, reader := x.reader.cancel }.onBroadcast env job)

/-- `on_submit` returns. -/
def finish (env : PoolEnv) (x : Session) (id : Option Value) (result : ShareResult) : Session :=
  { x with pc := respond env (finishSubmit id result) none }

/-- A step of `on_submit` that awaits nothing but a lock, the buffer or the sink. -/
def proceedSubmit (env : PoolEnv) (shared : Shared) (x : Session) (id : Option Value) :
    SubmitStage → Option (Shared × Session)
  | .lookup share =>
    let job? := shared.registry.getJob share.jobId
    some (shared,
      { x with pc := .submitting id (.recording share (env.shareProcessor.judge job? share) job?) })
  | .recording share result validated =>
    some ({ shared with records := shared.records.buffer share result },
      { x with pc := .submitting id (.reporting share result validated) })
  | .reporting share result validated =>
    let shared :=
      { shared with records := env.shareProcessor.reportShareResult shared.records share result }
    if result = .block then
      some (shared, { x with pc := .submitting id (.relookup share validated) })
    else some (shared, x.finish env id result)
  | .relookup share validated =>
    match shared.registry.getJob share.jobId with
    | none => some (shared, x.finish env id .block)
    | some job => some (shared, { x with pc := .submitting id (.fetching share job validated) })
  | .fetching _ _ _ => none
  | .submitting _ _ _ => none

/-- `maybe_submit_block_candidate` goes on with the answer of `current_job`. -/
def submitCurrent (env : PoolEnv) (shared : Shared) (x : Session) (id : Option Value)
    (share : ShareSubmission) (job : Job) (validated current : Option Job) : Shared × Session :=
  match maybeSubmitStep env job current share with
  | none => (shared, x.finish env id .block)
  | some (.finished _) => (shared, x.finish env id .block)
  | some .panicked => (shared, { x with pc := .ended })
  | some (.submitBlock candidate) =>
    ({ shared with submitted := shared.submitted ++ [⟨share, candidate, validated⟩] },
      { x with pc := .submitting id (.submitting share candidate validated) })

/-- `dispatch_request` goes on with the answer of `on_authorize`. -/
def authorized (env : PoolEnv) (x : Session) (id : Option Value) (username : String)
    (maybeJob : Option Job) : Session :=
  let (state, notify, response) := finishAuthorize x.state id username (.ok maybeJob)
  { x with state := state, pc := respond env response notify }

/-- A line was written: the next line, or the end of the writing. -/
def wrote (x : Session) (line : SentLine) (rest : List SentLine) (notify : Option Job) : Session :=
  let x := { x with written := x.written ++ [line] }
  match rest with
  | next :: rest => { x with pc := .writing next rest notify }
  | [] =>
    match notify with
    | none => { x with pc := .select }
    | some job =>
      { x with
        state := { x.state with lastNotifyJobId := some job.jobId }
        notified := x.notified ++ [job]
        pc := .registering job }

/-- A step of a session. -/
def step (env : PoolEnv) (parseJson : String → Option Sv1Request) (shared : Shared) (x : Session) :
    SessionEvent → Option (Shared × Session)
  | .arrive bytes =>
    if x.reader.closed then none
    else some (shared, { x with reader := x.reader.arrive bytes, arrived := x.arrived ++ bytes })
  | .peerClose => some (shared, { x with reader := x.reader.peerClose })
  | .pollRead =>
    match x.pc with
    | .select => some (x.pollRead env parseJson shared)
    | _ => none
  | .pollRecv =>
    match x.pc with
    | .select => (x.pollRecv env).map (shared, ·)
    | _ => none
  | .currentJob template =>
    match x.pc with
    | .authorizing id username =>
      some (shared, x.authorized env id username (env.currentJob template))
    | .submitting id (.fetching share job validated) =>
      some (x.submitCurrent env shared id share job validated (env.currentJob template))
    | _ => none
  | .proceed =>
    match x.pc with
    | .submitting id stage => x.proceedSubmit env shared id stage
    | .registering job =>
      some ({ shared with registry := shared.registry.register job }, { x with pc := .select })
    | _ => none
  | .blockSubmitted _ =>
    match x.pc with
    | .submitting id (.submitting _ _ _) => some (shared, x.finish env id .block)
    | _ => none
  | .written ok =>
    match x.pc with
    | .writing line rest notify =>
      if ok then some (shared, x.wrote line rest notify) else some (shared, { x with pc := .ended })
    | _ => none

end Session

end AzcoinPool
