import AzcoinPool.Pool.MinerWork
import AzcoinPool.Sv2.JobBridge

/-!
# The share-flow check

`share_flow_check.rs`: the scaffold bridges a template, builds the header of a share of zeros on the
job and validates it. The check is meant to protect the live path, and it is that path
(`checkShareFlowCompatibility_agrees`): it succeeds just where the adapter takes the template and
the live job source has a job for it, its job is the live one, and its verdict is the one the live
pool gives a session that submits the same share.
-/

open Endian

namespace AzcoinPool.Sv2

structure ShareFlowCompatibility where
  bridge : AzcoinJobBridge
  solvedHeader : Bytes
  validationResult : ShareResult

inductive ShareFlowCheckError where
  | bridge (error : BridgeError)
  | headerBuild (error : String)

/-- The share of the check. -/
def compatShare (job : Job) : ShareSubmission where
  jobId := job.jobId
  worker := WorkerIdentity.new "compat.worker"
  extraNonce2 := [0, 0, 0, 0]
  ntime := job.ntime
  nonce := 0
  validationContext := none

def checkShareFlowCompatibility (bitcoin : BitcoinCrate) (doubleSha256 : Bytes → Bytes32)
    (template : BlockTemplate) (payoutScriptPubkey : Slice) :
    Except ShareFlowCheckError ShareFlowCompatibility := do
  let bridge ← (bridgeBlockTemplate bitcoin template payoutScriptPubkey).mapError .bridge
  let share := compatShare bridge.job
  let extranonce1 := [0, 0, 0, 0]
  let solvedHeader ← (buildSolvedBlockHeader doubleSha256 bridge.job share extranonce1).mapError
    .headerBuild
  let validationResult := validateShare doubleSha256 bridge.job share extranonce1 1
  return ⟨bridge, solvedHeader, validationResult⟩

/-! ## The steps of the check -/

/-- The header of the check. -/
def compatHeader (doubleSha256 : Bytes → Bytes32) (job : Job) : Bytes :=
  buildBlockHeader job.version job.prevHash
    (shareMerkleRoot doubleSha256 job (compatShare job) [0, 0, 0, 0]) job.ntime job.nbits 0

theorem buildSolvedBlockHeader_compatShare (doubleSha256 : Bytes → Bytes32) (job : Job) :
    buildSolvedBlockHeader doubleSha256 job (compatShare job) [0, 0, 0, 0] =
      .ok (compatHeader doubleSha256 job) :=
  buildSolvedBlockHeader_of_no_bits doubleSha256 job [0, 0, 0, 0] rfl

/-- No step behind the bridge fails. -/
theorem checkShareFlowCompatibility_eq (bitcoin : BitcoinCrate) (doubleSha256 : Bytes → Bytes32)
    (template : BlockTemplate) (payoutScriptPubkey : Slice) :
    checkShareFlowCompatibility bitcoin doubleSha256 template payoutScriptPubkey =
      ((bridgeBlockTemplate bitcoin template payoutScriptPubkey).mapError .bridge).map
        fun bridge => ⟨bridge, compatHeader doubleSha256 bridge.job,
          validateShare doubleSha256 bridge.job (compatShare bridge.job) [0, 0, 0, 0] 1⟩ := by
  rw [checkShareFlowCompatibility]
  cases bridgeBlockTemplate bitcoin template payoutScriptPubkey with
  | error e => rfl
  | ok bridge =>
    have hheader := buildSolvedBlockHeader_compatShare doubleSha256 bridge.job
    simp only [Except.mapError, bind, Except.bind, pure, Except.pure, Except.map, hheader]

/-- The bridge succeeds where its two conversions do. -/
theorem isOk_bridgeBlockTemplate (bitcoin : BitcoinCrate) (template : BlockTemplate)
    (payoutScriptPubkey : Slice) :
    (bridgeBlockTemplate bitcoin template payoutScriptPubkey).isOk = true ↔
      (fromBlockTemplate template).isOk = true ∧
        (templateToJob bitcoin template payoutScriptPubkey).isOk = true := by
  rw [bridgeBlockTemplate]
  cases fromBlockTemplate template <;>
    cases templateToJob bitcoin template payoutScriptPubkey <;>
      simp [Except.mapError, bind, Except.bind, pure, Except.pure, Except.isOk, Except.toBool]

/-- The job of a bridge is the pool's. -/
theorem templateToJob_of_bridge {bitcoin : BitcoinCrate} {template : BlockTemplate}
    {payoutScriptPubkey : Slice} {bridge : AzcoinJobBridge}
    (h : bridgeBlockTemplate bitcoin template payoutScriptPubkey = .ok bridge) :
    templateToJob bitcoin template payoutScriptPubkey = .ok bridge.job := by
  rw [bridgeBlockTemplate] at h
  obtain ⟨canonical, -, h⟩ := Except.bind_eq_ok.mp h
  obtain ⟨job, hjob, h⟩ := Except.bind_eq_ok.mp h
  cases h
  exact Except.mapError_eq_ok.mp hjob

/-! ## The check and the live pool -/

/-- The share of a live session that submits what the check does. -/
def liveShare (state : SessionState) (worker : WorkerIdentity) (job : Job) : ShareSubmission :=
  sessionShare state worker job.jobId [0, 0, 0, 0] job.ntime 0 none

/-- What the check has built is what the live pool has and does. -/
structure FlowAgrees (env : PoolEnv) (template : BlockTemplate) (c : ShareFlowCompatibility) :
    Prop where
  job : env.currentJob (.ok (some template)) = some c.bridge.job
  /-- The header has the values of the canonical template, and commits to the coinbase with zeros
  for both extranonces. -/
  header : ∃ prevHash, prevHash.bytes = c.bridge.canonical.prevHash ∧
    c.solvedHeader = buildBlockHeader c.bridge.canonical.version prevHash
      (applyMerkleBranch env.doubleSha256
        (env.doubleSha256 (c.bridge.job.coinbasePart1 ++ List.replicate 8 0 ++
          c.bridge.job.coinbasePart2)) c.bridge.job.merkleBranch)
      c.bridge.canonical.ntime c.bridge.canonical.nbits 0
  /-- Where the job is registered, a live session's share is a block just when the check's is, and
  what is accepted passes the check, whose difficulty is the lowest. -/
  live : ∀ (registry : ActiveJobRegistry) records state worker,
    registry.getJob c.bridge.job.jobId = some c.bridge.job →
      state.extranonce1 = lowerHex08 0 → state.extranonce2Size = 4 →
        let verdict := (env.shareProcessor.processShare registry records
          (liveShare state worker c.bridge.job)).1
        (verdict = .block ↔ c.validationResult = .block) ∧
          (verdict = .accepted → c.validationResult = .accepted) ∧
            (env.initialDifficulty ≤ 1 → verdict = c.validationResult)

/-- The live verdict is the worth of the header of the check. -/
theorem processShare_liveShare {env : PoolEnv} {registry : ActiveJobRegistry} {job : Job}
    (hjob : registry.getJob job.jobId = some job) (records : ShareRecords) {state : SessionState}
    (worker : WorkerIdentity) (hen1 : state.extranonce1 = lowerHex08 0)
    (hsize : state.extranonce2Size = 4) :
    (env.shareProcessor.processShare registry records (liveShare state worker job)).1 =
      headerWorth env job (compatHeader env.doubleSha256 job) := by
  have hlen : state.extranonce2Size.toNat = ([0, 0, 0, 0] : Bytes).length := by
    rw [hsize]
    rfl
  have hshape : rejectShape (liveShare state worker job) = none := rejectShape_sessionShare hlen
  have hlookup : registry.getJob (liveShare state worker job).jobId = some job := hjob
  rw [JobAwareShareProcessor.processShare_eq, JobAwareShareProcessor.verdict, hshape, hlookup,
    Option.getD_none]
  have hextranonce1 : shareExtranonce1 (liveShare state worker job) = .ok [0, 0, 0, 0] := by
    simp only [shareExtranonce1, liveShare, sessionShare, Option.bind_some, hen1,
      Hex.decode_lowerHex08]
    rfl
  exact judge_eq_headerWorth hextranonce1
    (buildSolvedBlockHeader_of_no_bits env.doubleSha256 job [0, 0, 0, 0] rfl)

/-- At difficulty one a header is worth at least as much as at any other. -/
theorem headerWorth_difficulty_one (env : PoolEnv) (job : Job) (header : Bytes) :
    (headerWorth env job header = .block ↔
      headerWorth { env with initialDifficulty := 1 } job header = .block) ∧
      (headerWorth env job header = .accepted →
        headerWorth { env with initialDifficulty := 1 } job header = .accepted) ∧
        (env.initialDifficulty ≤ 1 →
          headerWorth env job header =
            headerWorth { env with initialDifficulty := 1 } job header) := by
  have hbound : shareBound env ≤ shareBound { env with initialDifficulty := 1 } := by
    simp only [shareBound]
    exact Nat.div_le_div_left (by simp) (by simp)
  simp only [headerWorth]
  split
  · simp
  · refine ⟨?_, ?_, ?_⟩
    · split <;> split <;> simp
    · split
      · next hle => simp [le_trans hle hbound]
      · simp
    · intro hone
      have hmax : max env.initialDifficulty 1 = max (1 : UInt32) 1 := by
        show (if env.initialDifficulty ≤ 1 then 1 else env.initialDifficulty) = _
        rw [if_pos hone]
        rfl
      have htoNat : max env.initialDifficulty.toNat 1 = 1 := Nat.max_eq_right hone
      simp [shareBound, hmax, htoNat]

/-- The check succeeds just where the adapter takes the template and the live job source has a job
for it, and then it has built and judged what the live pool does. -/
theorem checkShareFlowCompatibility_agrees {env : PoolEnv} {payoutScriptPubkey : Slice}
    (hpayout : env.payoutScriptPubkey = some payoutScriptPubkey) (template : BlockTemplate) :
    ((checkShareFlowCompatibility env.bitcoin env.doubleSha256 template payoutScriptPubkey).isOk =
        true ↔
      (fromBlockTemplate template).isOk = true ∧
        (env.currentJob (.ok (some template))).isSome = true) ∧
      ∀ c, checkShareFlowCompatibility env.bitcoin env.doubleSha256 template payoutScriptPubkey =
        .ok c → FlowAgrees env template c := by
  have hcurrent : env.currentJob (.ok (some template)) =
      (templateToJob env.bitcoin template payoutScriptPubkey).toOption := by
    simp only [PoolEnv.currentJob, rpcCurrentJob, hpayout]
  rw [checkShareFlowCompatibility_eq]
  constructor
  · have hok : (env.currentJob (.ok (some template))).isSome =
        (templateToJob env.bitcoin template payoutScriptPubkey).isOk := by
      rw [hcurrent]
      cases templateToJob env.bitcoin template payoutScriptPubkey <;> rfl
    rw [hok, ← isOk_bridgeBlockTemplate]
    cases bridgeBlockTemplate env.bitcoin template payoutScriptPubkey <;> rfl
  · intro c hc
    cases hbridge : bridgeBlockTemplate env.bitcoin template payoutScriptPubkey with
    | error e => rw [hbridge] at hc; cases hc
    | ok bridge =>
      rw [hbridge] at hc
      cases hc
      obtain ⟨hcanonical, hjob⟩ := bridgeBlockTemplate_eq_ok hbridge
      have hmap := templateToJob_of_bridge hbridge
      refine ⟨by rw [hcurrent, hmap]; rfl, ?_, ?_⟩
      · refine ⟨bridge.job.prevHash, (prevHash_agree hcanonical hjob.prevHash).symm, ?_⟩
        have hntime : bridge.canonical.ntime = bridge.job.ntime := by
          rw [hjob.ntime, ← hcanonical.ntime, ntimeToU32_toUInt64]
        have hzeros : bridge.job.coinbasePart1 ++ [0, 0, 0, 0] ++ [0, 0, 0, 0] ++
            bridge.job.coinbasePart2 =
              bridge.job.coinbasePart1 ++ List.replicate 8 0 ++ bridge.job.coinbasePart2 := by
          rw [List.append_assoc bridge.job.coinbasePart1]
          rfl
        simp only [hcanonical.version.trans hjob.version.symm, hntime,
          nbits_agree hcanonical hjob.nbits, ← hzeros]
        rfl
      · have hvalidated : validateShare env.doubleSha256 bridge.job (compatShare bridge.job)
            [0, 0, 0, 0] 1 = headerWorth { env with initialDifficulty := 1 } bridge.job
              (compatHeader env.doubleSha256 bridge.job) :=
          @validateShare_eq_headerWorth { env with initialDifficulty := 1 } bridge.job _ _ _
            (buildSolvedBlockHeader_compatShare env.doubleSha256 bridge.job)
        intro registry records state worker hregistered hen1 hsize
        simp only [processShare_liveShare hregistered records worker hen1 hsize, hvalidated]
        exact headerWorth_difficulty_one env bridge.job _

/-- The check of the bridge's test agrees with a pool that is configured with its payout script. -/
theorem checkShareFlowCompatibility_fixture : ∃ c,
    checkShareFlowCompatibility fixtureEnv.bitcoin fixtureEnv.doubleSha256 (fixtureTemplate [])
      fixturePayoutScript = .ok c ∧ FlowAgrees fixtureEnv (fixtureTemplate []) c := by
  have hok : (checkShareFlowCompatibility fixtureEnv.bitcoin fixtureEnv.doubleSha256
      (fixtureTemplate []) fixturePayoutScript).isOk = true := by
    decide +kernel
  obtain ⟨c, hc⟩ := Except.exists_of_isOk hok
  have hpayout : fixtureEnv.payoutScriptPubkey = some fixturePayoutScript := rfl
  exact ⟨c, hc, (checkShareFlowCompatibility_agrees hpayout (fixtureTemplate [])).2 c hc⟩

end AzcoinPool.Sv2
