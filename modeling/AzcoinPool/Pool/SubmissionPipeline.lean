import AzcoinPool.Coin.CandidateSubmit
import AzcoinPool.Coin.TemplateMapper
import AzcoinPool.Sv1.Messages

/-!
# From a candidate to the daemon and back

The submission of a block with nothing in between left out: `rpc_call` and `submit_block` of
`DaemonClient`, `AzcoinBlockSubmitter`, and `submit_block_candidate`. The daemon's client reports a
rejection as an error whose message starts with "submitblock rejected: ", and
`submit_block_candidate` looks for that prefix. In between the error becomes text, and its `Display`
puts "daemon/RPC error: " in front (`stripPrefix_display`). So the pipeline never ends in `Rejected`
(`submitBlockCandidate_ne_rejected`), and every rejection by the daemon ends in `LocalError`
(`submitBlockCandidate_of_rejection`).
-/

open Bitcoin

namespace AzcoinPool

/-! ## The daemon's client -/

/-- The status of an HTTP response, and how it is displayed. -/
structure HttpStatus where
  code : Nat
  text : String

def HttpStatus.isSuccess (status : HttpStatus) : Bool := 200 ≤ status.code && status.code < 300

/-- What comes of an HTTP request: it fails, or there is a response, whose body may not be JSON. -/
inductive HttpReply where
  | failed (error : String)
  | response (status : HttpStatus) (body : Except String Value)

/-- `Value::get` of a name. -/
def Value.get (value : Value) (key : String) : Option Value :=
  value.asObject.bind fun members => memberGet members key

/-- The daemon, by what it replies to a method and its parameters, and the text of a JSON value. -/
structure DaemonClient where
  reply : String → Value → HttpReply
  display : Value → String

/-- The `error` member of a response, unless it is `null`. -/
def rpcError (json : Value) : Option Value :=
  match json.get "error" with
  | some .null => none
  | error? => error?

def DaemonClient.rpcCall (daemon : DaemonClient) (method : String) (params : Value) :
    Except PoolError Value :=
  match daemon.reply method params with
  | .failed e => .error (.daemon ("daemon request failed: " ++ e))
  | .response _ (.error e) => .error (.daemon ("daemon response parse failed: " ++ e))
  | .response status (.ok json) =>
    match rpcError json with
    | some err =>
      let msg := ((err.get "message").bind Value.asStr).getD "unknown"
      .error (.daemon ("daemon RPC error: " ++ msg))
    | none =>
      if ¬status.isSuccess then .error (.daemon ("daemon returned HTTP " ++ status.text))
      else
        match json.get "result" with
        | some result => .ok result
        | none => .error (.daemon "daemon response missing result")

def DaemonClient.submitBlock (daemon : DaemonClient) (rawBlock : Bytes) : Except PoolError Bool :=
  match daemon.rpcCall "submitblock" (.array [.string (Hex.encode rawBlock)]) with
  | .error e => .error e
  | .ok .null => .ok true
  | .ok (.string reason) =>
    if trim reason = "" then .ok true
    else .error (.daemon ("submitblock rejected: " ++ reason))
  | .ok other =>
    .error (.daemon ("submitblock returned unexpected result: " ++ daemon.display other))

/-- `AzcoinBlockSubmitter::submit_block`. -/
def azcoinBlockSubmitter (daemon : DaemonClient) (block : BlockCandidate) : Except String Bool :=
  (daemon.submitBlock block.rawBlock).mapError PoolError.display

/-- `submit_block_candidate` with any submitter. -/
def submitBlockCandidate (bitcoin : BitcoinCrate) (submitter : BlockCandidate → Except String Bool)
    (solvedHeaderBytes : Bytes) (job : Job) (extranonce1 extraNonce2 : Bytes) :
    Outcome CandidateSubmissionResult :=
  match candidateStep bitcoin solvedHeaderBytes job extranonce1 extraNonce2 with
  | .submitBlock candidate => .returned (candidateResult (submitter candidate))
  | .finished result => .returned result
  | .panicked => .panicked

/-! ## The result of a submission -/

/-- A reply whose result is a value: a success status, no error, and the value as the result. -/
def HttpReply.Returns (reply : HttpReply) (result : Value) : Prop :=
  ∃ status json, reply = .response status (.ok json) ∧ status.isSuccess = true ∧
    rpcError json = none ∧ json.get "result" = some result

theorem rpcCall_of_returns {daemon : DaemonClient} {method : String} {params result : Value}
    (h : (daemon.reply method params).Returns result) :
    daemon.rpcCall method params = .ok result := by
  obtain ⟨status, json, hreply, hstatus, herror, hresult⟩ := h
  simp only [DaemonClient.rpcCall, hreply, herror, hstatus, hresult, not_true_eq_false, if_false]

/-- No error of the pool is displayed with the prefix of a rejection. -/
theorem stripPrefix_display (e : PoolError) :
    stripPrefix e.display "submitblock rejected: " = none := by
  cases e <;> exact stripPrefix_append_eq_none (n := 2) (by decide) (by decide) (by decide)

/-- The daemon's client never answers `false`. -/
theorem submitBlock_ne_false (daemon : DaemonClient) (rawBlock : Bytes) :
    daemon.submitBlock rawBlock ≠ .ok false := by
  rw [DaemonClient.submitBlock]
  split
  · nofun
  · nofun
  · split <;> nofun
  · nofun

/-- What an error of the client is made of it: a local one. -/
theorem candidateResult_of_error {daemon : DaemonClient} {block : BlockCandidate} {e : PoolError}
    (h : daemon.submitBlock block.rawBlock = .error e) :
    candidateResult (azcoinBlockSubmitter daemon block) = .localError e.display := by
  rw [azcoinBlockSubmitter, h, Except.mapError, candidateResult, stripPrefix_display]

/-- The submitter's answer is never taken for a rejection. -/
theorem candidateResult_ne_rejected (daemon : DaemonClient) (block : BlockCandidate)
    (reason : String) :
    candidateResult (azcoinBlockSubmitter daemon block) ≠ .rejected reason := by
  cases h : daemon.submitBlock block.rawBlock with
  | error e => rw [candidateResult_of_error h]; nofun
  | ok accepted =>
    cases accepted with
    | false => exact absurd h (submitBlock_ne_false daemon _)
    | true => rw [azcoinBlockSubmitter, h]; nofun

/-- How a rejection is displayed. -/
theorem display_rejection (reason : String) :
    (PoolError.daemon ("submitblock rejected: " ++ reason)).display =
      "daemon/RPC error: submitblock rejected: " ++ reason := by
  have hprefix : "daemon/RPC error: " ++ "submitblock rejected: " =
      "daemon/RPC error: submitblock rejected: " := by decide +kernel
  change "daemon/RPC error: " ++ ("submitblock rejected: " ++ reason) = _
  rw [← String.append_assoc, hprefix]

/-- What ends in front of the submitter ends locally. -/
theorem candidateStep_finished {bitcoin : BitcoinCrate} {header : Bytes} {job : Job}
    {extranonce1 extraNonce2 : Bytes} {result : CandidateSubmissionResult}
    (h : candidateStep bitcoin header job extranonce1 extraNonce2 = .finished result) :
    ∃ message, result = .localError message := by
  have hassemble {coinbaseTx : Bytes} {blockAssembly : BlockAssemblyData}
      (h : assembleCandidate bitcoin header coinbaseTx blockAssembly = .finished result) :
      ∃ message, result = .localError message := by
    rw [assembleCandidate] at h
    split at h <;> cases h
    exact ⟨_, rfl⟩
  rw [candidateStep] at h
  split at h
  · cases h
    exact ⟨_, rfl⟩
  · dsimp only at h
    split at h
    · split at h
      · cases h
      · cases h
        exact ⟨_, rfl⟩
      · exact hassemble h
    · exact hassemble h

/-- Whatever the daemon replies, the pipeline does not end in a rejection. -/
theorem submitBlockCandidate_ne_rejected (bitcoin : BitcoinCrate) (daemon : DaemonClient)
    (header : Bytes) (job : Job) (extranonce1 extraNonce2 : Bytes) (reason : String) :
    submitBlockCandidate bitcoin (azcoinBlockSubmitter daemon) header job extranonce1 extraNonce2 ≠
      .returned (.rejected reason) := by
  rw [submitBlockCandidate]
  split
  · intro h
    exact candidateResult_ne_rejected daemon _ reason (Outcome.returned.inj h)
  · next result hfinished =>
    obtain ⟨message, rfl⟩ := candidateStep_finished hfinished
    nofun
  · nofun

/-- A candidate the daemon rejects, for whatever reason that is not blank, ends as a local error and
not as a rejection for that reason. -/
theorem submitBlockCandidate_of_rejection {bitcoin : BitcoinCrate} {daemon : DaemonClient}
    {header : Bytes} {job : Job} {extranonce1 extraNonce2 : Bytes} {candidate : BlockCandidate}
    {reason : String}
    (hcandidate : candidateStep bitcoin header job extranonce1 extraNonce2 = .submitBlock candidate)
    (hreason : trim reason ≠ "")
    (hreply : (daemon.reply "submitblock"
      (.array [.string (Hex.encode candidate.rawBlock)])).Returns (.string reason)) :
    let result := submitBlockCandidate bitcoin (azcoinBlockSubmitter daemon) header job extranonce1
      extraNonce2
    result ≠ .returned (.rejected reason) ∧
      result = .returned
        (.localError ("daemon/RPC error: submitblock rejected: " ++ reason)) := by
  intro result
  refine ⟨submitBlockCandidate_ne_rejected bitcoin daemon header job extranonce1 extraNonce2 reason,
    ?_⟩
  have hsubmit : daemon.submitBlock candidate.rawBlock =
      .error (.daemon ("submitblock rejected: " ++ reason)) := by
    rw [DaemonClient.submitBlock, rpcCall_of_returns hreply]
    exact if_neg hreason
  simp only [result, submitBlockCandidate, hcandidate]
  rw [candidateResult_of_error hsubmit, display_rejection]

/-! ## A rejection -/

/-- A daemon that answers every call with a result. -/
def fixtureDaemon (result : Value) : DaemonClient where
  reply _ _ := .response ⟨200, "200 OK"⟩ (.ok (.object [("result", result), ("error", .null)]))
  display _ := ""

theorem fixtureDaemon_returns (result : Value) (method : String) (params : Value) :
    ((fixtureDaemon result).reply method params).Returns result :=
  ⟨_, _, rfl, rfl, rfl, rfl⟩

/-- A solved share of a mapped job is made into a candidate. -/
theorem exists_candidate_fixture : ∃ job candidate,
    templateToJob .ofFormat (fixtureTemplate []) fixturePayoutScript = .ok job ∧
    candidateStep .ofFormat (List.replicate 80 0) job [0, 0, 0, 1] [0, 0, 0, 0] =
      .submitBlock candidate := by
  have hany : (templateToJob .ofFormat (fixtureTemplate []) fixturePayoutScript).toOption.any
      (fun job => (candidateStep .ofFormat (List.replicate 80 0) job [0, 0, 0, 1]
        [0, 0, 0, 0]).candidate.isSome) = true := by
    decide +kernel
  obtain ⟨job, hjob, hsome⟩ := Except.exists_of_any hany
  obtain ⟨candidate, hcandidate⟩ := Option.isSome_iff_exists.mp hsome
  exact ⟨job, candidate, hjob, CandidateStep.candidate_eq_some.mp hcandidate⟩

theorem submitBlockCandidate_fixture : ∃ job,
    submitBlockCandidate .ofFormat (azcoinBlockSubmitter (fixtureDaemon (.string "high-hash")))
      (List.replicate 80 0) job [0, 0, 0, 1] [0, 0, 0, 0] =
      .returned (.localError "daemon/RPC error: submitblock rejected: high-hash") := by
  obtain ⟨job, candidate, -, hcandidate⟩ := exists_candidate_fixture
  have hresult := (submitBlockCandidate_of_rejection hcandidate (by decide +kernel)
    (fixtureDaemon_returns (.string "high-hash") _ _)).2
  have hmessage : "daemon/RPC error: submitblock rejected: " ++ "high-hash" =
      "daemon/RPC error: submitblock rejected: high-hash" := by decide +kernel
  rw [hmessage] at hresult
  exact ⟨job, hresult⟩

/-- The daemon's reason "high-hash" does not come out as a rejection. -/
theorem not_rejected_fixture :
    ¬∀ (bitcoin : BitcoinCrate) (daemon : DaemonClient) (header : Bytes) (job : Job)
        (extranonce1 extraNonce2 : Bytes) (candidate : BlockCandidate) (reason : String),
      candidateStep bitcoin header job extranonce1 extraNonce2 = .submitBlock candidate →
      trim reason ≠ "" →
      (daemon.reply "submitblock"
        (.array [.string (Hex.encode candidate.rawBlock)])).Returns (.string reason) →
      submitBlockCandidate bitcoin (azcoinBlockSubmitter daemon) header job extranonce1
        extraNonce2 = .returned (.rejected reason) := by
  intro h
  obtain ⟨job, candidate, -, hcandidate⟩ := exists_candidate_fixture
  refine submitBlockCandidate_ne_rejected .ofFormat (fixtureDaemon (.string "high-hash"))
    (List.replicate 80 0) job [0, 0, 0, 1] [0, 0, 0, 0] "high-hash" (h _ _ _ _ _ _ candidate _
      hcandidate ?_ ?_)
  · decide +kernel
  · exact fixtureDaemon_returns _ _ _

end AzcoinPool
