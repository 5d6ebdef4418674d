import AzcoinPool.Pool.Credit
import AzcoinPool.Pool.Progress
import AzcoinPool.Sv1.BlockTime
import AzcoinPool.Sv1.MinerHeader

/-!
# What a miner's work is worth

From the miner's side of the wire to the verdict: a subscribed and authorized miner builds a header
from the `mining.notify` of a job, with the extranonce1 it was issued, and submits its choice of
extranonce2, block time and nonce in the format of the notification. If the job is still the one
that is registered under its id when the share is looked up, whatever happened in between, then the
verdict is what the header is worth that the pool builds of the job and the miner's choice
(`worth_of_runsTo`): such a share is never rejected, malformed or of an unknown job. It is the
miner's own header when the job's branch entries read the same in both directions; else the miner
hashes another one.
-/

open Endian

namespace AzcoinPool

variable {env : PoolEnv} {parseJson : String → Option Sv1Request}

/-! ## The miner's request -/

/-- The `mining.submit` of a miner, in the format of the notification. -/
def minerSubmit (id : Option Value) (username jobId : String) (extraNonce2 : Bytes)
    (ntime nonce : UInt32) : Sv1Request where
  id := id
  method := "mining.submit"
  params := some (.array [.string username, .string jobId, .string (Hex.encode extraNonce2),
    .string (lowerHex08 ntime), .string (lowerHex08 nonce)])

/-- The request is read as what the miner has put into it. -/
theorem mapRequestToCommand_minerSubmit (id : Option Value) (username jobId : String)
    (extraNonce2 : Bytes) (ntime nonce : UInt32) :
    mapRequestToCommand (minerSubmit id username jobId extraNonce2 ntime nonce) =
      .ok (some (.submitShare username jobId extraNonce2 ntime nonce none)) := by
  simp [mapRequestToCommand, minerSubmit, mapSubmitParams, submitParam, submitVersionBits,
    submitHexU32_lowerHex08, okOr, Value.asArray, Value.asStr, bind, Except.bind, pure,
    Except.pure, Except.map, Except.toOption]

/-- The share that an authorized session makes of the request. -/
theorem dispatch_minerSubmit {next : UInt32} {state : SessionState} {username : String}
    (hworker : state.authorizedWorker = some (WorkerIdentity.new username)) (id : Option Value)
    (jobId : String) (extraNonce2 : Bytes) (ntime nonce : UInt32) :
    dispatchRequest next state (minerSubmit id username jobId extraNonce2 ntime nonce) =
      .onSubmit id (sessionShare state (WorkerIdentity.new username) jobId extraNonce2 ntime nonce
        none) := by
  rw [dispatchRequest, mapRequestToCommand_minerSubmit]
  simp [hworker, WorkerIdentity.new, minerSubmit]

/-! ## The worth of a header -/

/-- The verdict that a header is worth on a job, by its hash as a number. -/
def headerWorth (env : PoolEnv) (job : Job) (header : Bytes) : ShareResult :=
  let hash := leNat (env.doubleSha256 header).bytes
  if hash ≤ beNat (nbitsToTarget job.nbits).bytes then .block
  else if hash ≤ shareBound env then .accepted
  else .lowDifficulty
    ("hash above pool target (pool difficulty " ++ (max env.initialDifficulty 1).toNat.repr ++ ")")

/-- A share on a job is validated by the header that is built for it. -/
theorem validateShare_eq_headerWorth {job : Job} {share : ShareSubmission}
    {extranonce1 header : Bytes}
    (hheader : buildSolvedBlockHeader env.doubleSha256 job share extranonce1 = .ok header) :
    validateShare env.doubleSha256 job share extranonce1 env.initialDifficulty =
      headerWorth env job header := by
  simp only [validateShare_eq, hheader, leqBe_reverse_iff, beNat_divTargetByDifficulty,
    headerWorth, shareBound, toNat_max_one, Nat.max_assoc, Nat.max_self, diff1Target]

/-- A share on a job is judged by the header that is built for it. -/
theorem judge_eq_headerWorth {job : Job} {share : ShareSubmission} {extranonce1 header : Bytes}
    (hen1 : shareExtranonce1 share = .ok extranonce1)
    (hheader : buildSolvedBlockHeader env.doubleSha256 job share extranonce1 = .ok header) :
    env.shareProcessor.judge (some job) share = headerWorth env job header := by
  rw [← validateShare_eq_headerWorth hheader]
  simp only [PoolEnv.shareProcessor, azcoinShareProcessor, JobAwareShareProcessor.judge, hen1]

/-! ## The share in the pool -/

/-- A session that was issued an extranonce1 expects four bytes of extranonce2. -/
theorem extranonce2Size_of_runsTo {Ok : Pool → Event → Prop} {es : List Event} {p : Pool}
    (h : (poolMachine env parseJson).RunsTo Ok es p) {i : Nat} {x : Session}
    (get : p.sessions[i]? = some x) {en1 : UInt32} (hen1 : x.state.extranonce1 = lowerHex08 en1) :
    x.state.extranonce2Size = 4 := by
  obtain ⟨inputs, unanswered, hfollows⟩ := follows_of_runsTo h get
  have hissued := run_extranonces inputs
  rw [← hfollows.state] at hissued
  cases hlatest : latestIssued inputs with
  | some en1' =>
    rw [hlatest] at hissued
    exact hissued.2
  | none =>
    rw [hlatest] at hissued
    have hsize := Hex.utf8ByteSize_lowerHex08 en1
    rw [← hen1, hissued.1] at hsize
    cases hsize

/-- A share without version bits, with an extranonce2 of the length that is expected, is in shape.
-/
theorem rejectShape_sessionShare {state : SessionState} {worker : WorkerIdentity} {jobId : String}
    {extraNonce2 : Bytes} {ntime nonce : UInt32}
    (hlen : state.extranonce2Size.toNat = extraNonce2.length) :
    rejectShape (sessionShare state worker jobId extraNonce2 ntime nonce none) = none := by
  rw [rejectShape_eq_none, ExtraNonce2Mismatch, VersionBitsOutsideMask]
  simp [sessionShare, hlen]

/-- The arrival of bytes leaves a session where it stands. -/
theorem Session.StepTo.pc_eq_of_not_isWork {shared shared' : Shared} {x x' : Session}
    {e : SessionEvent} (h : StepTo env parseJson shared x e shared' x') (hwork : e.isWork = false) :
    x'.pc = x.pc := by
  cases h with
  | arrive | peerClose => rfl
  | _ => cases hwork

/-- Steps that are not its work leave a session where it stands. -/
theorem Pool.pc_of_runFrom {p p' : Pool} {es : List Event} {i : Nat} {x : Session}
    (get : p.sessions[i]? = some x)
    (hrun : (poolMachine env parseJson).runFrom p es = some p')
    (hidle : es.countP (Event.isWorkOf i) = 0) :
    ∃ x', p'.sessions[i]? = some x' ∧ x'.pc = x.pc := by
  induction es generalizing p x with
  | nil =>
    cases hrun
    exact ⟨x, get, rfl⟩
  | cons e es ih =>
    rw [Machine.runFrom_cons] at hrun
    obtain ⟨p₁, hstep, hrun⟩ := Option.bind_eq_some_iff.mp hrun
    rw [List.countP_cons] at hidle
    have hother : e.isWorkOf i = false := by
      cases hwork : e.isWorkOf i with
      | false => rfl
      | true => simp [hwork] at hidle
    have hrest : es.countP (Event.isWorkOf i) = 0 := by omega
    obtain ⟨x₁, get₁, hpc₁⟩ : ∃ x₁, p₁.sessions[i]? = some x₁ ∧ x₁.pc = x.pc := by
      obtain ⟨x₁, get₁, ⟨e', rfl, hrule⟩ | ⟨-, hpc⟩⟩ := Pool.exists_of_step hstep get
      · exact ⟨x₁, get₁, hrule.pc_eq_of_not_isWork (by simpa [Event.isWorkOf] using hother)⟩
      · exact ⟨x₁, get₁, hpc⟩
    obtain ⟨x', get', hpc'⟩ := ih get₁ hrun hrest
    exact ⟨x', get', hpc'.trans hpc₁⟩

/-- A waiting session that reads the request looks up the job of its share. -/
theorem lookup_of_minerSubmit {p p' : Pool} {i : Nat} {x : Session}
    (get : p.sessions[i]? = some x) {id : Option Value} {username jobId : String}
    {extraNonce2 : Bytes} {ntime nonce : UInt32}
    (hworker : x.state.authorizedWorker = some (WorkerIdentity.new username))
    (hlen : x.state.extranonce2Size.toNat = extraNonce2.length)
    (hread : x.nextRequest parseJson =
      some (minerSubmit id username jobId extraNonce2 ntime nonce))
    (hstep : p.step env parseJson (.session i .pollRead) = some p') :
    ∃ x' id, p'.sessions[i]? = some x' ∧ x'.pc = .submitting id (.lookup
      (sessionShare x.state (WorkerIdentity.new username) jobId extraNonce2 ntime nonce none)) := by
  set share := sessionShare x.state (WorkerIdentity.new username) jobId extraNonce2 ntime nonce none
    with hshare
  have hdispatching : x.dispatching parseJson p.shared .pollRead = some share := by
    rw [Session.dispatching, hread, Option.bind_some, dispatch_minerSubmit hworker]
    rfl
  cases Pool.step_cases hstep with
  | @session _ _ x₁ x' shared get₁ hrule =>
    obtain rfl : x₁ = x := Option.some.inj (get₁.symm.trans get)
    obtain ⟨id', share', -, -, hpc', hsome⟩ | ⟨hnone, -⟩ := hrule.dispatching_cases
    · cases hsome.symm.trans hdispatching
      refine ⟨x', id', List.getElem?_set_self (List.getElem?_eq_some_iff.mp get).1, ?_⟩
      rw [hpc', SubmitStage.start, hshare, rejectShape_sessionShare hlen]
    · rw [hdispatching] at hnone
      cases hnone

/-- Without version bits the header has the job's version. -/
theorem headerVersion_sessionShare (state : SessionState) (worker : WorkerIdentity)
    (jobId : String) (extraNonce2 : Bytes) (ntime nonce : UInt32) (job : Job) :
    headerVersion job (sessionShare state worker jobId extraNonce2 ntime nonce none) =
      job.version := by
  rw [headerVersion]
  split
  · next heq => simp [sessionShare] at heq
  · rfl

/-- When the branch entries read the same in both directions, the miner builds the header of its
share. -/
theorem minerHeader_eq_shareHeader {job : Job} (hbranch : ∀ b ∈ job.merkleBranch, b.reverse = b)
    {share : ShareSubmission} (hversion : headerVersion job share = job.version) (en1 : Bytes) :
    minerHeader env.doubleSha256 (buildMiningNotify job) en1 share.extraNonce2 share.ntime
        share.nonce = some (shareHeader env.doubleSha256 job share en1) := by
  rw [minerHeader_buildMiningNotify, map_reverse_eq_self hbranch, applyMerkleBranch_eq_foldl,
    shareHeader, hversion]
  rfl

/-- The verdict that a session carries is the worth of the header of its share on the job. -/
structure Session.CarriesWorth (env : PoolEnv) (x : Session) (job : Job) (en1 : Bytes)
    (share : ShareSubmission) : Prop where
  jobId : share.jobId = job.jobId
  version : headerVersion job share = job.version
  recording : ∃ id, x.pc = .submitting id (.recording share
    (headerWorth env job (shareHeader env.doubleSha256 job share en1)) (some job))

/-- Whatever happens between the request of a miner and the lookup of its share, if the job is then
registered, the share's verdict is the worth of the header that the pool builds of the job and the
miner's extranonces, time and nonce. It is the header that the miner built from the job's
notification, when the branch entries read the same in both directions. -/
theorem worth_of_runsTo {es : List Event} {p : Pool}
    (h : (poolMachine env parseJson).RunsTo (fun _ _ => True) es p) {i : Nat} {x : Session}
    (get : p.sessions[i]? = some x) {id : Option Value} {username : String} {en1 : UInt32}
    {job : Job} {extraNonce2 : Bytes} {ntime nonce : UInt32}
    (hworker : x.state.authorizedWorker = some (WorkerIdentity.new username))
    (hen1 : x.state.extranonce1 = lowerHex08 en1) (hen2 : extraNonce2.length = 4)
    (hread : x.nextRequest parseJson =
      some (minerSubmit id username job.jobId extraNonce2 ntime nonce))
    {es' : List Event} {p' : Pool}
    (hrun : (poolMachine env parseJson).runFrom p (.session i .pollRead :: es') = some p')
    (hidle : es'.countP (Event.isWorkOf i) = 0)
    (hregistered : p'.shared.registry.getJob job.jobId = some job) :
    ∃ p'' x'' share, p'.step env parseJson (.session i .proceed) = some p'' ∧
      p''.sessions[i]? = some x'' ∧ share.worker = WorkerIdentity.new username ∧
      (share.extraNonce2, share.ntime, share.nonce) = (extraNonce2, ntime, nonce) ∧
      x''.CarriesWorth env job (toLeBytes en1).reverse share ∧
      ((∀ b ∈ job.merkleBranch, b.reverse = b) →
        minerHeader env.doubleSha256 (buildMiningNotify job) (toLeBytes en1).reverse extraNonce2
          ntime nonce = some (shareHeader env.doubleSha256 job share (toLeBytes en1).reverse)) := by
  have hlen : x.state.extranonce2Size.toNat = extraNonce2.length := by
    rw [extranonce2Size_of_runsTo h get hen1, hen2]
    rfl
  rw [Machine.runFrom_cons] at hrun
  obtain ⟨p₁, hstep, hrun⟩ := Option.bind_eq_some_iff.mp hrun
  obtain ⟨x₁, id', get₁, hpc₁⟩ := lookup_of_minerSubmit get hworker hlen hread hstep
  obtain ⟨x', get', hpc'⟩ := Pool.pc_of_runFrom get₁ hrun hidle
  rw [hpc₁] at hpc'
  set share := sessionShare x.state (WorkerIdentity.new username) job.jobId extraNonce2 ntime nonce
    none with hshare
  have hextranonce1 : shareExtranonce1 share = .ok (toLeBytes en1).reverse := by
    simp only [shareExtranonce1, hshare, sessionShare, Option.bind_some, hen1,
      Hex.decode_lowerHex08]
  have hjudge := judge_eq_headerWorth hextranonce1 (buildSolvedBlockHeader_of_rejectShape
    (rejectShape_sessionShare hlen) env.doubleSha256 job (toLeBytes en1).reverse)
  have hjob : p'.shared.registry.getJob share.jobId = some job := hregistered
  have hversion : headerVersion job share = job.version := headerVersion_sessionShare ..
  set judged : Session := { x' with
    pc := .submitting id' (.recording share (env.shareProcessor.judge (some job) share)
      (some job)) } with hjudged
  have hproceed : p'.step env parseJson (.session i .proceed) =
      some { p' with sessions := p'.sessions.set i judged } := by
    simp only [Pool.step, get', Session.step, hpc', Session.proceedSubmit, hjob]
    rfl
  refine ⟨_, judged, share, hproceed,
    List.getElem?_set_self (List.getElem?_eq_some_iff.mp get').1, rfl, rfl,
    ⟨rfl, hversion, id', ?_⟩, fun hbranch => minerHeader_eq_shareHeader hbranch hversion _⟩
  rw [hjudged, hjudge]

/-- A template with a transaction whose id reads the same in both directions. -/
def palindromicTemplate : BlockTemplate :=
  fixtureTemplate [{ spendingTransaction with
    txid := some ⟨"1111111111111111111111111111111111111111111111111111111111111111",
      by decide +kernel⟩ }]

/-- The fixture's miner has its share, whose hash is zero, judged a block while another miner
connects. -/
theorem worth_fixture : ∃ p p' job p'' x'' share,
    (poolMachine fixtureEnv fixtureJson).run ([.connect] ++ handshake 0 palindromicTemplate ++
      [.session 0 (.arrive (utf8 (submitLine ++ "\n")))]) = some p ∧
    (poolMachine fixtureEnv fixtureJson).runFrom p [.session 0 .pollRead, .connect] = some p' ∧
    job.merkleBranch.length = 1 ∧
    p'.step fixtureEnv fixtureJson (.session 0 .proceed) = some p'' ∧
    p''.sessions[0]? = some x'' ∧ share.worker = WorkerIdentity.new "u.w" ∧
    x''.CarriesWorth fixtureEnv job (toLeBytes 1).reverse share ∧
    minerHeader fixtureEnv.doubleSha256 (buildMiningNotify job) (toLeBytes 1).reverse
      [0x11, 0x22, 0x33, 0x44] 0x6553f100 0x12345678 =
        some (shareHeader fixtureEnv.doubleSha256 job share (toLeBytes 1).reverse) := by
  have hany : ((poolMachine fixtureEnv fixtureJson).run ([.connect] ++
      handshake 0 palindromicTemplate ++
        [.session 0 (.arrive (utf8 (submitLine ++ "\n")))])).any (fun p =>
      (p.sessions[0]?).any (fun x =>
        decide (x.state.authorizedWorker = some (WorkerIdentity.new "u.w") ∧
          x.state.extranonce1 = lowerHex08 1 ∧
          (x.reader.poll.2.bind fromUtf8).map trim = some submitLine)) &&
      ((poolMachine fixtureEnv fixtureJson).runFrom p [.session 0 .pollRead, .connect]).any
        (fun p' => (p'.shared.registry.getJob "100").any
          (fun job => decide (job.jobId = "100" ∧ job.merkleBranch.length = 1 ∧
            ∀ b ∈ job.merkleBranch, b.reverse = b)))) = true := by
    decide +kernel
  obtain ⟨p, hp, hprops⟩ := (Option.any_eq_true _ _).mp hany
  rw [Bool.and_eq_true] at hprops
  obtain ⟨hbefore, hafter⟩ := hprops
  obtain ⟨x, get, hx⟩ := (Option.any_eq_true _ _).mp hbefore
  obtain ⟨p', hp', hjobs⟩ := (Option.any_eq_true _ _).mp hafter
  obtain ⟨job, hget, hjob⟩ := (Option.any_eq_true _ _).mp hjobs
  obtain ⟨hworker, hen1, htext⟩ := of_decide_eq_true hx
  obtain ⟨hid, hlength, hbranch⟩ := of_decide_eq_true hjob
  obtain ⟨line, hline, htrim⟩ := Option.map_eq_some_iff.mp htext
  have hread : x.nextRequest fixtureJson = some (minerSubmit (some (.ofU32 3)) "u.w" job.jobId
      [0x11, 0x22, 0x33, 0x44] 0x6553f100 0x12345678) := by
    rw [Session.nextRequest, hline, Option.bind_some, htrim, hid]
    rfl
  obtain ⟨p'', x'', share, hproceed, get'', hshare, -, hworth, hminer⟩ :=
    worth_of_runsTo (Machine.runsTo_of_run hp) get hworker hen1 rfl hread hp' (by decide)
      (by rw [hid]; exact hget)
  exact ⟨p, p', job, p'', x'', share, hp, hp', hlength, hproceed, get'', hshare, hworth,
    hminer hbranch⟩

end AzcoinPool
