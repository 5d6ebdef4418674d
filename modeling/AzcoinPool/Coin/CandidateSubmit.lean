import AzcoinPool.Coin.BitcoinCrate
import AzcoinPool.Coin.ShareValidator
import AzcoinPool.Core.PoolError

/-!
# Submitting a block candidate

`raw_block_builder.rs` and `candidate_submit.rs`: the raw block from a solved header and the job's
block-assembly data, and what becomes of the submitter's answer. `submitBlockCandidate` is split at
its only await: `candidateStep` is what happens up to the call of the submitter and
`candidateResult` what happens behind it.
-/

open Bitcoin

namespace AzcoinPool

/-! ## The raw block -/

def validateTransactionBytes (bitcoin : BitcoinCrate) (label : String) (txBytes : Bytes) :
    Except PoolError Unit :=
  match bitcoin.deserialize txBytes with
  | .ok _ => .ok ()
  | .error e => .error (.internal ("invalid " ++ label ++ " bytes: " ++ e))

/-- The checks of the template's transactions from the one at `index` on. -/
def validateTransactionsFrom (bitcoin : BitcoinCrate) (index : Nat) :
    List Bytes → Except PoolError Unit
  | [] => .ok ()
  | txBytes :: txs => do
    validateTransactionBytes bitcoin ("template transaction " ++ index.repr) txBytes
    validateTransactionsFrom bitcoin (index + 1) txs

def buildRawBlock (bitcoin : BitcoinCrate) (headerBytes coinbaseTxBytes : Bytes)
    (templateTransactions : List Bytes) : Except PoolError Bytes :=
  if headerBytes.length ≠ 80 then
    .error (.internal ("block header length " ++ headerBytes.length.repr ++ " != 80"))
  else do
    validateTransactionBytes bitcoin "coinbase" coinbaseTxBytes
    validateTransactionsFrom bitcoin 0 templateTransactions
    let txCount := 1 + templateTransactions.length
    if 2 ^ 64 ≤ txCount then .error (.internal "block transaction count overflow")
    else
      return headerBytes ++ bitcoin.encodeVarInt (UInt64.ofNat txCount) ++ coinbaseTxBytes ++
        templateTransactions.flatten

/-- What a raw block consists of. -/
theorem buildRawBlock_eq_ok {bitcoin : BitcoinCrate} {header coinbase rawBlock : Bytes}
    {txs : List Bytes} (h : buildRawBlock bitcoin header coinbase txs = .ok rawBlock) :
    header.length = 80 ∧ validateTransactionsFrom bitcoin 0 txs = .ok () ∧
      1 + txs.length < 2 ^ 64 ∧
      rawBlock = header ++ bitcoin.encodeVarInt (UInt64.ofNat (1 + txs.length)) ++ coinbase ++
        txs.flatten := by
  rw [buildRawBlock] at h
  split at h
  · cases h
  · next hheader =>
    obtain ⟨_, -, h⟩ := Except.bind_eq_ok.mp h
    obtain ⟨_, htxs, h⟩ := Except.bind_eq_ok.mp h
    dsimp only at h
    split at h
    · cases h
    · next hcount =>
      cases h
      exact ⟨Decidable.not_not.mp hheader, htxs, Nat.lt_of_not_le hcount, rfl⟩

/-- A raw block starts with its header. -/
theorem header_prefix_of_buildRawBlock {bitcoin : BitcoinCrate} {header coinbase block : Bytes}
    {txs : List Bytes} (h : buildRawBlock bitcoin header coinbase txs = .ok block) :
    header <+: block := by
  obtain ⟨-, -, -, rfl⟩ := buildRawBlock_eq_ok h
  rw [List.append_assoc, List.append_assoc]
  exact List.prefix_append _ _

/-! ## The candidate -/

structure BlockCandidate where
  blockHash : Bytes32
  height : UInt64
  rawBlock : Bytes
  deriving DecidableEq

inductive CandidateSubmissionResult where
  | submitted
  | rejected (reason : String)
  | localError (message : String)
  deriving DecidableEq

def reconstructMinerCoinbase (job : Job) (extranonce1 extraNonce2 : Bytes) : Bytes :=
  job.coinbasePart1 ++ extranonce1 ++ extraNonce2 ++ job.coinbasePart2

/-- What a function does that may index out of bounds: it returns, or it panics. -/
inductive Outcome (α : Type) where
  | returned (a : α)
  | panicked
  deriving DecidableEq

/-- `restore_coinbase_witness`; `tx.input[0]` panics on a transaction without inputs. -/
def restoreCoinbaseWitness (bitcoin : BitcoinCrate) (coinbaseNoWitness : Bytes) :
    Outcome (Except String Bytes) :=
  match bitcoin.deserialize coinbaseNoWitness with
  | .error e => .returned (.error ("coinbase deserialize for witness: " ++ e))
  | .ok tx =>
    match tx.input with
    | [] => .panicked
    | txIn :: rest =>
      .returned (.ok (bitcoin.serialize
        { tx with input := { txIn with witness := [List.replicate 32 0] } :: rest }))

/-- What `submit_block_candidate` does up to its await. -/
inductive CandidateStep where
  /-- The submitter is called with the candidate. -/
  | submitBlock (candidate : BlockCandidate)
  | finished (result : CandidateSubmissionResult)
  | panicked
  deriving DecidableEq

/-- The candidate the submitter is called with. -/
def CandidateStep.candidate : CandidateStep → Option BlockCandidate
  | submitBlock candidate => some candidate
  | _ => none

theorem CandidateStep.candidate_eq_some {step : CandidateStep} {candidate : BlockCandidate} :
    step.candidate = some candidate ↔ step = .submitBlock candidate := by
  cases step <;> simp [CandidateStep.candidate]

/-- The part of `submit_block_candidate` behind the coinbase. -/
def assembleCandidate (bitcoin : BitcoinCrate) (solvedHeaderBytes coinbaseTx : Bytes)
    (blockAssembly : BlockAssemblyData) : CandidateStep :=
  match buildRawBlock bitcoin solvedHeaderBytes coinbaseTx blockAssembly.templateTransactions with
  | .error err => .finished (.localError err.display)
  | .ok rawBlock => .submitBlock ⟨Bytes32.fill 0, blockAssembly.height, rawBlock⟩

/-- `submit_block_candidate` up to its await. -/
def candidateStep (bitcoin : BitcoinCrate) (solvedHeaderBytes : Bytes) (job : Job)
    (extranonce1 extraNonce2 : Bytes) : CandidateStep :=
  match job.blockAssembly with
  | none => .finished (.localError "missing job.block_assembly")
  | some blockAssembly =>
    let coinbaseNoWitness := reconstructMinerCoinbase job extranonce1 extraNonce2
    if blockAssembly.defaultWitnessCommitment.isSome then
      match restoreCoinbaseWitness bitcoin coinbaseNoWitness with
      | .panicked => .panicked
      | .returned (.error e) => .finished (.localError e)
      | .returned (.ok bytes) => assembleCandidate bitcoin solvedHeaderBytes bytes blockAssembly
    else assembleCandidate bitcoin solvedHeaderBytes coinbaseNoWitness blockAssembly

/-- `submit_block_candidate` behind its await, given the submitter's answer. -/
def candidateResult : Except String Bool → CandidateSubmissionResult
  | .ok true => .submitted
  | .ok false => .rejected "block submitter returned false"
  | .error message =>
    match stripPrefix message "submitblock rejected: " with
    | some reason => .rejected reason
    | none => .localError message

/-- The coinbase of a candidate, with the witness a commitment calls for. -/
def candidateCoinbase (bitcoin : BitcoinCrate) (job : Job) (blockAssembly : BlockAssemblyData)
    (extranonce1 extraNonce2 : Bytes) : Option Bytes :=
  let coinbaseNoWitness := reconstructMinerCoinbase job extranonce1 extraNonce2
  if blockAssembly.defaultWitnessCommitment.isSome then
    match restoreCoinbaseWitness bitcoin coinbaseNoWitness with
    | .returned (.ok bytes) => some bytes
    | _ => none
  else some coinbaseNoWitness

/-- A candidate that is handed to the submitter has the raw block on its coinbase. -/
theorem exists_of_candidateStep {bitcoin : BitcoinCrate} {header : Bytes} {job : Job}
    {extranonce1 extraNonce2 : Bytes} {candidate : BlockCandidate}
    (h : candidateStep bitcoin header job extranonce1 extraNonce2 = .submitBlock candidate) :
    ∃ blockAssembly coinbase, job.blockAssembly = some blockAssembly ∧
      candidateCoinbase bitcoin job blockAssembly extranonce1 extraNonce2 = some coinbase ∧
      buildRawBlock bitcoin header coinbase blockAssembly.templateTransactions =
        .ok candidate.rawBlock := by
  have hassemble : ∀ {coinbaseTx : Bytes} {blockAssembly : BlockAssemblyData},
      assembleCandidate bitcoin header coinbaseTx blockAssembly = .submitBlock candidate →
        buildRawBlock bitcoin header coinbaseTx blockAssembly.templateTransactions =
          .ok candidate.rawBlock := by
    intro coinbaseTx blockAssembly h
    rw [assembleCandidate] at h
    split at h
    · cases h
    · next hblock => cases h; exact hblock
  rw [candidateStep] at h
  split at h
  · cases h
  · next blockAssembly hassembly =>
    dsimp only at h
    split at h
    · next hcommitment =>
      split at h
      · cases h
      · cases h
      · next bytes hrestore =>
        exact ⟨blockAssembly, bytes, hassembly, by simp [candidateCoinbase, hcommitment, hrestore],
          hassemble h⟩
    · next hcommitment =>
      exact ⟨blockAssembly, _, hassembly, by simp [candidateCoinbase, hcommitment], hassemble h⟩

/-- The block of a candidate that is handed to the submitter starts with the solved header. -/
theorem header_prefix_of_candidateStep {bitcoin : BitcoinCrate} {header : Bytes} {job : Job}
    {extranonce1 extraNonce2 : Bytes} {candidate : BlockCandidate}
    (h : candidateStep bitcoin header job extranonce1 extraNonce2 = .submitBlock candidate) :
    header <+: candidate.rawBlock := by
  obtain ⟨blockAssembly, coinbase, -, -, hblock⟩ := exists_of_candidateStep h
  exact header_prefix_of_buildRawBlock hblock

/-! ## When a candidate is handed out -/

/-- The transactions of a block decode, and a 64-bit integer counts them. -/
def BlockDecodes (bitcoin : BitcoinCrate) (coinbaseTxBytes : Bytes)
    (templateTransactions : List Bytes) : Prop :=
  (bitcoin.deserialize coinbaseTxBytes).isOk = true ∧
    (∀ txBytes ∈ templateTransactions, (bitcoin.deserialize txBytes).isOk = true) ∧
    1 + templateTransactions.length < 2 ^ 64

/-- A block can be assembled from the job. -/
def Assembles (bitcoin : BitcoinCrate) (job : Job) (extranonce1 extraNonce2 : Bytes) : Prop :=
  ∃ blockAssembly ∈ job.blockAssembly,
    ∃ coinbase ∈ candidateCoinbase bitcoin job blockAssembly extranonce1 extraNonce2,
      BlockDecodes bitcoin coinbase blockAssembly.templateTransactions

theorem validateTransactionBytes_isOk (bitcoin : BitcoinCrate) (label : String) (bs : Bytes) :
    (validateTransactionBytes bitcoin label bs).isOk = (bitcoin.deserialize bs).isOk := by
  rw [validateTransactionBytes]
  cases bitcoin.deserialize bs <;> rfl

theorem validateTransactionsFrom_isOk (bitcoin : BitcoinCrate) (index : Nat) (txs : List Bytes) :
    (validateTransactionsFrom bitcoin index txs).isOk = true ↔
      ∀ txBytes ∈ txs, (bitcoin.deserialize txBytes).isOk = true := by
  induction txs generalizing index with
  | nil => simp [validateTransactionsFrom, Except.isOk, Except.toBool]
  | cons txBytes txs ih =>
    rw [validateTransactionsFrom, List.forall_mem_cons, ← ih (index + 1),
      ← validateTransactionBytes_isOk bitcoin ("template transaction " ++ index.repr)]
    cases validateTransactionBytes bitcoin ("template transaction " ++ index.repr) txBytes <;>
      simp [bind, Except.bind, Except.isOk, Except.toBool]

/-- A raw block is built on an 80-byte header just when its transactions decode. -/
theorem buildRawBlock_isOk {bitcoin : BitcoinCrate} {header coinbase : Bytes} {txs : List Bytes}
    (hheader : header.length = 80) :
    (buildRawBlock bitcoin header coinbase txs).isOk = true ↔
      BlockDecodes bitcoin coinbase txs := by
  rw [buildRawBlock, if_neg (by simp [hheader]), BlockDecodes,
    ← validateTransactionBytes_isOk bitcoin "coinbase", ← validateTransactionsFrom_isOk bitcoin 0]
  cases validateTransactionBytes bitcoin "coinbase" coinbase with
  | error e => simp [bind, Except.bind, Except.isOk, Except.toBool]
  | ok u =>
    cases validateTransactionsFrom bitcoin 0 txs with
    | error e => simp [bind, Except.bind, Except.isOk, Except.toBool]
    | ok u' =>
      simp only [bind, Except.bind]
      split
      · next hcount => simp [Except.isOk, Except.toBool, -Nat.reducePow, hcount]
      · next hcount =>
        simp only [Except.isOk, Except.toBool, pure, Except.pure, true_and]
        exact ⟨fun _ => Nat.lt_of_not_le hcount, fun _ => trivial⟩

theorem exists_assembleCandidate_iff {bitcoin : BitcoinCrate} {header coinbase : Bytes}
    (hheader : header.length = 80) (blockAssembly : BlockAssemblyData) :
    (∃ candidate, assembleCandidate bitcoin header coinbase blockAssembly =
      .submitBlock candidate) ↔
      BlockDecodes bitcoin coinbase blockAssembly.templateTransactions := by
  rw [← buildRawBlock_isOk hheader, assembleCandidate]
  cases buildRawBlock bitcoin header coinbase blockAssembly.templateTransactions <;>
    simp [Except.isOk, Except.toBool]

/-- `submit_block_candidate` calls the submitter just when a block can be assembled. -/
theorem exists_candidateStep_iff {bitcoin : BitcoinCrate} {header : Bytes} {job : Job}
    {extranonce1 extraNonce2 : Bytes} (hheader : header.length = 80) :
    (∃ candidate, candidateStep bitcoin header job extranonce1 extraNonce2 =
      .submitBlock candidate) ↔ Assembles bitcoin job extranonce1 extraNonce2 := by
  rw [candidateStep, Assembles]
  cases job.blockAssembly with
  | none => simp
  | some blockAssembly =>
    simp only [Option.mem_def, Option.some.injEq, exists_eq_left', candidateCoinbase]
    split
    · cases restoreCoinbaseWitness bitcoin
          (reconstructMinerCoinbase job extranonce1 extraNonce2) with
      | panicked => simp
      | returned result =>
        cases result with
        | error e => simp
        | ok bytes => simp [exists_assembleCandidate_iff hheader]
    · simp [exists_assembleCandidate_iff hheader]

/-- Up to its await it panics only on a coinbase that reads as a transaction without inputs. -/
theorem exists_of_candidateStep_eq_panicked {bitcoin : BitcoinCrate} {header : Bytes} {job : Job}
    {extranonce1 extraNonce2 : Bytes}
    (h : candidateStep bitcoin header job extranonce1 extraNonce2 = .panicked) :
    ∃ tx, bitcoin.deserialize (reconstructMinerCoinbase job extranonce1 extraNonce2) = .ok tx ∧
      tx.input = [] := by
  have hassemble (coinbaseTx : Bytes) (blockAssembly : BlockAssemblyData) :
      assembleCandidate bitcoin header coinbaseTx blockAssembly ≠ .panicked := by
    rw [assembleCandidate]
    split <;> nofun
  rw [candidateStep] at h
  split at h
  · cases h
  · dsimp only at h
    split at h
    · split at h
      · next hrestore =>
        rw [restoreCoinbaseWitness] at hrestore
        split at hrestore
        · cases hrestore
        · next tx htx =>
          split at hrestore
          · next hnil => exact ⟨tx, htx, hnil⟩
          · cases hrestore
      · cases h
      · exact absurd h (hassemble _ _)
    · exact absurd h (hassemble _ _)

end AzcoinPool
