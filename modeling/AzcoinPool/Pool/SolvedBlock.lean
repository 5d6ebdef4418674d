import AzcoinPool.Coin.CoinbaseParts
import AzcoinPool.Coin.RawBlock
import AzcoinPool.Pool.System

/-!
# The block of a solved share

The validator and the submitter each put the header and the coinbase of a share together, and the
submitter reads the coinbase back and writes it again with its witness. For a job mapped from a
template both come to the same: the submitted bytes read as a block with the header that was hashed,
whose coinbase has the hash the header's merkle root was folded from, and behind it the template's
transactions (`isValidatedBlock_of_submitBlock`).
-/

open Bitcoin Endian

namespace AzcoinPool

/-! ## The transactions -/

/-- The entry's data decode to the transaction. -/
def TransactionEntry.Decodes (bitcoin : BitcoinCrate) (entry : TransactionEntry)
    (tx : Transaction) : Prop :=
  ∃ bytes, Hex.decode entry.data.text = .ok bytes ∧ bitcoin.deserialize bytes = .ok tx

theorem forall₂_decodes {bitcoin : BitcoinCrate} {entries : List TransactionEntry}
    {bodies : List Bytes} {txs : List Transaction}
    (hbodies : List.Forall₂ (fun entry bytes => Hex.decode entry.data.text = .ok bytes) entries
      bodies)
    (htxs : List.Forall₂ (fun bytes tx => bitcoin.deserialize bytes = .ok tx) bodies txs) :
    List.Forall₂ (TransactionEntry.Decodes bitcoin) entries txs := by
  induction hbodies generalizing txs with
  | nil => cases htxs; exact .nil
  | cons hbody _ ih =>
    cases htxs with
    | cons htx htxs => exact .cons ⟨_, hbody, htx⟩ (ih htxs)

/-! ## The coinbase -/

/-- Without its witness a transaction is written in the legacy format. -/
theorem serializeNoWitness_eq_legacy {bitcoin : BitcoinCrate} (hbitcoin : bitcoin.FollowsFormat)
    {tx : Transaction} (hin : inputs.Valid (tx.input.map TxIn.bare))
    (hout : outputs.Valid tx.output) : serializeNoWitness bitcoin tx = legacy.encode tx := by
  rw [serializeNoWitness, hbitcoin.encodeVersion, hbitcoin.encodeInput hin,
    hbitcoin.encodeOutput hout, hbitcoin.encodeLockTime, legacy_encode, List.append_assoc]

/-- The witnesses of a coinbase: one item of 32 zero bytes when the template has a commitment. -/
def coinbaseWitnesses (template : BlockTemplate) : List (List Bytes) :=
  if template.commitmentText.isSome then [[List.replicate 32 0]] else [[]]

/-- A mapped job has a commitment just when its template has. -/
theorem isSome_commitment_of_mapped {bitcoin : BitcoinCrate} {template : BlockTemplate}
    {payoutScriptPubkey : Slice} {job : Job} {blockAssembly : BlockAssemblyData}
    (hjob : MappedJob bitcoin template payoutScriptPubkey job)
    (h : job.blockAssembly = some blockAssembly) :
    blockAssembly.defaultWitnessCommitment.isSome = template.commitmentText.isSome := by
  obtain ⟨flags, commitment, txs, -, hcommitment, -, -, hassembly⟩ := hjob.blockAssembly
  cases h.symm.trans hassembly
  unfold BlockTemplate.commitmentText
  cases commitment with
  | none => rw [nonBlankText_eq_none hcommitment]; rfl
  | some script =>
    obtain ⟨text, htext, -⟩ := nonBlankText_eq_some hcommitment
    rw [htext]
    rfl

/-- The coinbase of a candidate is the job's, filled with the extranonces, with the witness a
commitment calls for; without it, the coinbase is what the validator hashed. -/
theorem candidateCoinbase_eq {bitcoin : BitcoinCrate} (hbitcoin : bitcoin.FollowsFormat)
    {template : BlockTemplate} {payoutScriptPubkey : Bytes} {job : Job} {commitment : Option Bytes}
    {before after : Bytes}
    (hcut : CutCoinbase template payoutScriptPubkey job commitment before after)
    {extranonce1 extraNonce2 : Bytes} (hlen : (extranonce1 ++ extraNonce2).length = 8)
    {blockAssembly : BlockAssemblyData} {coinbase : Bytes}
    (h : candidateCoinbase bitcoin job blockAssembly extranonce1 extraNonce2 = some coinbase) :
    let witness :=
      if blockAssembly.defaultWitnessCommitment.isSome then [List.replicate 32 0] else []
    let cb := coinbaseOf (before ++ (extranonce1 ++ extraNonce2) ++ after)
      (coinbaseOutputs template.coinbasevalue payoutScriptPubkey commitment) witness
    transaction.Valid cb ∧ coinbase = transaction.encode cb ∧
      serializeNoWitness bitcoin cb = reconstructMinerCoinbase job extranonce1 extraNonce2 := by
  intro witness cb
  obtain ⟨hlegacy, hdeserialize⟩ := hcut.decode hlen hbitcoin
  have hminer : reconstructMinerCoinbase job extranonce1 extraNonce2 =
      job.coinbasePart1 ++ (extranonce1 ++ extraNonce2) ++ job.coinbasePart2 := by
    simp only [reconstructMinerCoinbase, List.append_assoc]
  obtain ⟨⟨⟨hin, hout⟩, -⟩, hbytes⟩ := legacy.decode_eq_some_nil.mp hlegacy
  have hscript : (before ++ (extranonce1 ++ extraNonce2) ++ after).length < 2 ^ 64 := by
    have := hcut.length_lt
    simp only [List.length_append] at hlen ⊢
    omega
  have hvalid (w : List Bytes) (hw : w = [] ∨ w = [List.replicate 32 0]) :
      transaction.Valid (coinbaseOf (before ++ (extranonce1 ++ extraNonce2) ++ after)
        (coinbaseOutputs template.coinbasevalue payoutScriptPubkey commitment) w) :=
    transaction_valid_coinbaseOf hscript hcut.outputs_valid hw
  have hlegacyCb : serializeNoWitness bitcoin cb =
      reconstructMinerCoinbase job extranonce1 extraNonce2 := by
    have hcbIn : inputs.Valid (cb.input.map TxIn.bare) := hin
    rw [serializeNoWitness_eq_legacy hbitcoin hcbIn hout, hminer, hbytes]
    rfl
  rw [candidateCoinbase] at h
  split at h
  · next hsome =>
    rw [restoreCoinbaseWitness, hminer, hdeserialize] at h
    cases h
    have hwitness : witness = [List.replicate 32 0] := if_pos hsome
    have hcb : transaction.Valid cb := hvalid witness (.inr hwitness)
    refine ⟨hcb, ?_, hlegacyCb⟩
    rw [← hbitcoin.serialize hcb]
    simp only [cb, hwitness]
    rfl
  · next hnone =>
    cases h
    have hwitness : witness = [] := if_neg hnone
    refine ⟨hvalid witness (.inl hwitness), ?_, hlegacyCb⟩
    rw [hminer, hbytes]
    simp only [cb, hwitness]
    rfl

/-- The coinbase of a candidate is a transaction that is, without its witness, the coinbase the
validator hashed. -/
theorem exists_of_candidateCoinbase {bitcoin : BitcoinCrate} (hbitcoin : bitcoin.FollowsFormat)
    {template : BlockTemplate} {payoutScriptPubkey : Slice} {job : Job}
    (hjob : templateToJob bitcoin template payoutScriptPubkey = .ok job)
    {extranonce1 extraNonce2 : Bytes} (hlen : (extranonce1 ++ extraNonce2).length = 8)
    {blockAssembly : BlockAssemblyData} (hassembly : job.blockAssembly = some blockAssembly)
    {coinbase : Bytes}
    (h : candidateCoinbase bitcoin job blockAssembly extranonce1 extraNonce2 = some coinbase) :
    ∃ cb, transaction.Valid cb ∧ coinbase = transaction.encode cb ∧
      serializeNoWitness bitcoin cb = reconstructMinerCoinbase job extranonce1 extraNonce2 ∧
      cb.input.map TxIn.witness = coinbaseWitnesses template := by
  obtain ⟨commitment, before, after, hcut⟩ := exists_cutCoinbase hbitcoin hjob
  obtain ⟨hvalid, hencode, hlegacy⟩ := candidateCoinbase_eq hbitcoin hcut hlen h
  have hcommitment := isSome_commitment_of_mapped (MappedJob.of_templateToJob hjob) hassembly
  refine ⟨_, hvalid, hencode, hlegacy, ?_⟩
  rw [coinbaseWitnesses, ← hcommitment]
  cases blockAssembly.defaultWitnessCommitment.isSome <;> rfl

/-! ## The block -/

/-- The bytes are a block of the template on the header that was hashed: 80 bytes with the version
of the share, the fold of the merkle branch over the coinbase's hash, the time and the nonce. -/
structure IsValidatedBlock (env : PoolEnv) (template : BlockTemplate) (job : Job)
    (share : ShareSubmission) (trace : ShareValidationTrace) (rawBlock : Bytes) (cb : Transaction)
    (txs : List Transaction) : Prop where
  decode : block.decode rawBlock = some ((trace.header, cb :: txs), [])
  transactions : List.Forall₂ (TransactionEntry.Decodes env.bitcoin) template.transactions txs
  /-- The coinbase's hash is the leaf of the merkle root in the header. -/
  leaf : trace.coinbaseHash = env.doubleSha256 (serializeNoWitness env.bitcoin cb)
  header : trace.header = leBytes 4 (headerVersion job share).toNat ++ job.prevHash.bytes ++
    (job.merkleBranch.foldl (fun acc b => env.doubleSha256 (acc.bytes ++ b.bytes))
      trace.coinbaseHash).bytes ++
    leBytes 4 share.ntime.toNat ++ leBytes 4 job.nbits.toNat ++ leBytes 4 share.nonce.toNat
  /-- The hash that was compared with the target is that of the header, last byte first. -/
  hash : trace.hash.bytes = (env.doubleSha256 trace.header).bytes.reverse
  witness : cb.input.map TxIn.witness = coinbaseWitnesses template

/-- The trace of a share in shape: its coinbase, the header that is built for the submission, and
the hash. -/
theorem exists_trace_of_rejectShape {share : ShareSubmission} (h : rejectShape share = none)
    (doubleSha256 : Bytes → Bytes32) (job : Job) (extranonce1 : Bytes) (d : UInt32) :
    ∃ trace, buildShareValidationTrace doubleSha256 job share extranonce1 d = .ok trace ∧
      trace.coinbaseHash =
        doubleSha256 (reconstructMinerCoinbase job extranonce1 share.extraNonce2) ∧
      trace.header = shareHeader doubleSha256 job share extranonce1 ∧
      trace.hash.bytes = (doubleSha256 trace.header).bytes.reverse := by
  have hheader := buildSolvedBlockHeader_of_rejectShape h doubleSha256 job extranonce1
  rw [buildSolvedBlockHeader_eq, resolvedVersion_of_rejectShape h] at hheader
  rw [buildShareValidationTrace, resolvedVersion_of_rejectShape h]
  exact ⟨_, rfl, rfl, Except.ok.inj hheader, rfl⟩

/-- A share on a mapped job that is judged a block with extranonces of four bytes, and whose block
is submitted while the job is the one registered: the submitted bytes are a block of the template on
the header that was hashed. -/
theorem isValidatedBlock_of_submitBlock {env : PoolEnv} (hbitcoin : env.bitcoin.FollowsFormat)
    {template : BlockTemplate} {payoutScriptPubkey : Slice} {job : Job}
    (hjob : templateToJob env.bitcoin template payoutScriptPubkey = .ok job)
    {registry : ActiveJobRegistry} {share : ShareSubmission} {extranonce1 : Bytes}
    (hregistered : registry.getJob share.jobId = some job)
    (hen1 : shareExtranonce1 share = .ok extranonce1) (hlen1 : extranonce1.length = 4)
    (hlen2 : share.extraNonce2.length = 4) {records : ShareRecords}
    (hblock : (env.shareProcessor.processShare registry records share).1 = .block)
    {current : Option Job} {candidate : BlockCandidate}
    (hsubmit : maybeSubmitStep env job current share = some (.submitBlock candidate)) :
    ∃ trace cb txs,
      buildShareValidationTrace env.doubleSha256 job share extranonce1
        (max env.initialDifficulty 1) = .ok trace ∧
      leqBe trace.hash trace.blockTarget = true ∧
      IsValidatedBlock env template job share trace candidate.rawBlock cb txs := by
  have hmapped := MappedJob.of_templateToJob hjob
  obtain ⟨-, extranonce1', header, hen1', hheader, hcandidate⟩ :=
    maybeSubmitStep_eq_submitBlock hsubmit
  obtain rfl : extranonce1' = extranonce1 := Except.ok.inj (hen1'.symm.trans hen1)
  obtain ⟨blockAssembly, coinbase, hassembly, hcoinbase, hraw⟩ := exists_of_candidateStep hcandidate
  have hlen : (extranonce1' ++ share.extraNonce2).length = 8 := by
    rw [List.length_append, hlen1, hlen2]
  obtain ⟨cb, hvalid, rfl, hlegacy, hwitness⟩ :=
    exists_of_candidateCoinbase hbitcoin hjob hlen hassembly hcoinbase
  obtain ⟨txs, hdecode, htxs⟩ := block_decode_of_buildRawBlock hbitcoin hvalid hraw
  have hshape := rejectShape_of_processShare_eq_block hblock
  rw [buildSolvedBlockHeader_of_rejectShape hshape] at hheader
  cases hheader
  obtain ⟨trace, htrace, hleaf, hheader, hhash⟩ := exists_trace_of_rejectShape hshape
    env.doubleSha256 job extranonce1' (max env.initialDifficulty 1)
  rw [← hheader] at hdecode
  refine ⟨trace, cb, txs, htrace, ?_, hdecode, ?_, ?_, ?_, hhash, hwitness⟩
  · have hjudge := judge_of_processShare_eq_block hblock
    rw [hregistered] at hjudge
    exact leqBe_of_judge_eq_block hjudge hen1 htrace
  · obtain ⟨flags, commitment, bodies, -, -, hbodies, -, hassembly'⟩ := hmapped.blockAssembly
    cases hassembly.symm.trans hassembly'
    exact forall₂_decodes (forall₂_of_decodeTransactionsFrom hbodies) htxs
  · rw [hleaf, hlegacy]
  · rw [hheader, hleaf]
    rfl

/-- A transaction with one input and one output. -/
def spendingTransaction : TransactionEntry where
  data := ⟨"01000000" ++ "01" ++
    "0000000000000000000000000000000000000000000000000000000000000001" ++ "00000000" ++ "00" ++
    "ffffffff" ++ "01" ++ "0100000000000000" ++ "00" ++ "00000000", by decide +kernel⟩
  txid := none
  hash := none

/-- A share on a template with a transaction and a witness commitment. -/
theorem isValidatedBlock_fixture :
    let template := { fixtureTemplate [spendingTransaction] with
      defaultWitnessCommitment := some ⟨"6a24aa21a9ed11223344556677889900", by decide⟩ }
    ∃ job trace candidate cb txs,
      templateToJob .ofFormat template fixturePayoutScript = .ok job ∧
      maybeSubmitStep fixtureEnv job none (fixtureShare "100") = some (.submitBlock candidate) ∧
      IsValidatedBlock fixtureEnv template job (fixtureShare "100") trace candidate.rawBlock cb
        txs := by
  intro template
  have hany : (templateToJob .ofFormat template fixturePayoutScript).toOption.any (fun job =>
      decide ((ActiveJobRegistry.new.register job).getJob (fixtureShare "100").jobId = some job ∧
        (fixtureEnv.shareProcessor.processShare (ActiveJobRegistry.new.register job) ⟨[], []⟩
          (fixtureShare "100")).1 = .block ∧
        ((maybeSubmitStep fixtureEnv job none (fixtureShare "100")).bind
          (·.candidate)).isSome = true)) = true := by
    decide +kernel
  obtain ⟨job, hjob, hprops⟩ := Except.exists_of_any hany
  obtain ⟨hget, hblock, hsubmit⟩ := of_decide_eq_true hprops
  obtain ⟨candidate, hcandidate⟩ := Option.isSome_iff_exists.mp hsubmit
  obtain ⟨step, hstep, heq⟩ := Option.bind_eq_some_iff.mp hcandidate
  rw [CandidateStep.candidate_eq_some.mp heq] at hstep
  have hbitcoin : fixtureEnv.bitcoin.FollowsFormat := BitcoinCrate.ofFormat_followsFormat
  have hen1 : shareExtranonce1 (fixtureShare "100") = .ok [0, 0, 0, 1] := by decide +kernel
  obtain ⟨trace, cb, txs, -, -, hvalidated⟩ :=
    isValidatedBlock_of_submitBlock hbitcoin hjob hget hen1 rfl rfl hblock hstep
  exact ⟨job, trace, candidate, cb, txs, hjob, hstep, hvalidated⟩

end AzcoinPool
