import AzcoinPool.Lib.Machine
import AzcoinPool.Pool.Session
import AzcoinPool.Sv1.Connection

/-!
# The pool

The whole of the running program: the poller, the sessions and what they share, with the broadcast
channel between them. An event is a poll, a new connection, or something that happens to one
session; the steps of all parties interleave in any order.
-/

namespace AzcoinPool

/-- The state of the job poller. -/
structure Poller where
  lastJobId : String := ""
  lastHeight : UInt64 := 0
  /-- The jobs that were broadcast; the program does not keep them. -/
  broadcast : List Job := []

/-- The poller broadcasts a job with another id or height than the last one. -/
def Poller.isNew (p : Poller) (job : Job) : Bool :=
  job.jobId ≠ p.lastJobId || job.height ≠ p.lastHeight

def Poller.send (p : Poller) (job : Job) : Poller where
  lastJobId := job.jobId
  lastHeight := job.height
  broadcast := p.broadcast ++ [job]

structure Pool where
  shared : Shared := {}
  poller : Poller := {}
  /-- The sessions in the order of their connections. -/
  sessions : List Session := []

inductive Event where
  /-- A `current_job` of the poller returns, given the answer of the daemon. -/
  | poll (template : Except PoolError (Option BlockTemplate))
  /-- The listener accepts a connection. -/
  | connect
  /-- Something happens to the session at the index. -/
  | session (s : Nat) (event : SessionEvent)

namespace Pool

/-- The sessions whose receivers are still there get a job. -/
def broadcast (sessions : List Session) (job : Job) : List Session :=
  sessions.map fun x =>
    match x.pc with
    | .ended => x
    | _ => { x with receiver := x.receiver.push job }

/-- A turn of the poller's loop. -/
def poll (p : Pool) : Option Job → Pool
  | none => p
  | some job =>
    if p.poller.isNew job then
      { p with poller := p.poller.send job, sessions := broadcast p.sessions job }
    else p

def step (env : PoolEnv) (parseJson : String → Option Sv1Request) (p : Pool) :
    Event → Option Pool
  | .poll template => some (p.poll (env.currentJob template))
  | .connect => some { p with sessions := p.sessions ++ [{}] }
  | .session s event =>
    match p.sessions[s]? with
    | none => none
    | some x =>
      (x.step env parseJson p.shared event).map fun r =>
        { p with shared := r.1, sessions := p.sessions.set s r.2 }

end Pool

/-- The pool as a machine. -/
def poolMachine (env : PoolEnv) (parseJson : String → Option Sv1Request) : Machine Pool Event where
  init := {}
  step := Pool.step env parseJson

/-! ## A fixture -/

/-- A pool with the mapper's test configuration and a hash that is always zero. -/
def fixtureEnv : PoolEnv where
  bitcoin := .ofFormat
  doubleSha256 := fun _ => Bytes32.fill 0
  payoutScriptPubkey := some fixturePayoutScript
  initialDifficulty := 1
  shareSink := false

def subscribeLine : String := "\x7b\"id\":1,\"method\":\"mining.subscribe\",\"params\":[]\x7d"

def authorizeLine : String :=
  "\x7b\"id\":2,\"method\":\"mining.authorize\",\"params\":[\"u.w\",\"x\"]\x7d"

def submitLine : String :=
  "\x7b\"id\":3,\"method\":\"mining.submit\",\"params\":[\"u.w\",\"100\",\"11223344\"," ++
    "\"6553f100\",\"12345678\"]\x7d"

/-- JSON parsing on the lines of the fixture. -/
def fixtureJson (line : String) : Option Sv1Request :=
  if line = subscribeLine then some subscribeRequest
  else if line = authorizeLine then some authorizeRequest
  else if line = submitLine then some (submitRequest "11223344")
  else none

/-- A line arrives and is read. -/
def sendLine (s : Nat) (line : String) : List Event :=
  [.session s (.arrive (utf8 (line ++ "\n"))), .session s .pollRead]

/-- A session subscribes, authorizes and is notified of the template's job. -/
def handshake (s : Nat) (template : BlockTemplate) : List Event :=
  sendLine s subscribeLine ++ [.session s (.written true)] ++ sendLine s authorizeLine ++
    [.session s (.currentJob (.ok (some template))), .session s (.written true),
      .session s (.written true), .session s (.written true), .session s .proceed]

/-- A session receives a job and notifies its miner of it. -/
def receive (s : Nat) : List Event :=
  [.session s .pollRecv, .session s (.written true), .session s (.written true),
    .session s .proceed]

/-- The fixture's template at another height. -/
def templateAt (height : UInt64) : BlockTemplate := { fixtureTemplate [] with height := height }

end AzcoinPool
