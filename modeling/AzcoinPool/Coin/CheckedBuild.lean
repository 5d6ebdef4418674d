import AzcoinPool.Coin.CompactTarget
import AzcoinPool.Coin.TemplateMapper
import AzcoinPool.Lib.Checked

/-!
# Validating a share in a checked build

The functions of `share_validator.rs` once more, in a build with overflow checks: `none` is a panic.
Where such a function returns it returns what the wrapping one does, and all of them always return
but two. `nbits_to_target` subtracts below zero for an exponent byte above 32
(`nbitsToTargetChecked_eq`), before the guard `byte_offset < 32` that is there for such exponents;
and the coinbase has to fit into a vector. So a share is validated without a panic just when
`ReturnsChecked` holds (`returns_iff`).
-/

open Checked

namespace AzcoinPool

/-! ## The functions -/

/-- `build_coinbase`: the lengths are added up for the capacity, which is then not exceeded. -/
def buildCoinbaseChecked (job : Job) (share : ShareSubmission) (extranonce1 : Bytes) :
    Option Bytes := do
  let len ← usizeAdd job.coinbasePart1.length extranonce1.length
  let len ← usizeAdd len share.extraNonce2.length
  let len ← usizeAdd len job.coinbasePart2.length
  withCapacity len
  return job.coinbasePart1 ++ extranonce1 ++ share.extraNonce2 ++ job.coinbasePart2

def applyMerkleBranchChecked (doubleSha256 : Bytes → Bytes32) (merkleRoot : Bytes32) :
    List Bytes32 → Option Bytes32
  | [] => some merkleRoot
  | branch :: merkleBranch => do
    let data ← copyInto (List.replicate 64 0) 0 32 merkleRoot.bytes
    let data ← copyInto data 32 64 branch.bytes
    applyMerkleBranchChecked doubleSha256 (doubleSha256 data) merkleBranch

def nbitsToTargetChecked (nbits : UInt32) : Option Bytes32 := do
  let target := Bytes32.fill 0
  let exponent := (nbits >>> 24).toNat
  let mantissa := nbits &&& 0xffffff
  if exponent ≤ 3 then
    let bytes ← usizeSub 3 exponent
    let bits ← usizeMul 8 bytes
    let v ← u64Shl mantissa.toUInt64 bits
    let target ← setByte target 28 (v >>> 24).toUInt8
    let target ← setByte target 29 (v >>> 16).toUInt8
    let target ← setByte target 30 (v >>> 8).toUInt8
    setByte target 31 v.toUInt8
  else
    let shift ← usizeSub exponent 3
    let rest ← usizeSub 32 shift
    let byteOffset ← usizeSub rest 3
    if byteOffset < 32 then
      let target ← setByte target byteOffset (mantissa >>> 16).toUInt8
      let next ← usizeAdd byteOffset 1
      let target ← if next < 32 then setByte target next (mantissa >>> 8).toUInt8 else some target
      let last ← usizeAdd byteOffset 2
      if last < 32 then setByte target last mantissa.toUInt8 else some target
    else some target

/-- The loop of `div_target_by_difficulty`, with the array it writes. -/
def divTargetLoopChecked (divisor : UInt64) (i : Nat) (remainder : UInt64) (out : Bytes32) :
    Bytes → Option Bytes32
  | [] => some out
  | byte :: bytes => do
    let value := remainder <<< 8 ||| byte.toUInt64
    let digit ← u64Div value divisor
    let out ← setByte out i digit.toUInt8
    let remainder ← u64Rem value divisor
    divTargetLoopChecked divisor (i + 1) remainder out bytes

def divTargetByDifficultyChecked (target : Bytes32) (difficulty : UInt32) : Option Bytes32 :=
  if difficulty ≤ 1 then some target
  else divTargetLoopChecked difficulty.toUInt64 0 0 (Bytes32.fill 0) target.bytes

/-- The loop of `leq_be` over the indices given. -/
def leqBeLoop (a b : Bytes32) : List Nat → Option Bool
  | [] => some true
  | i :: is => do
    let x ← a.bytes[i]?
    let y ← b.bytes[i]?
    if x < y then some true else if y < x then some false else leqBeLoop a b is

def leqBeChecked (a b : Bytes32) : Option Bool := leqBeLoop a b (List.range 32)

def buildShareValidationTraceChecked (doubleSha256 : Bytes → Bytes32) (job : Job)
    (share : ShareSubmission) (extranonce1 : Bytes) (poolDifficulty : UInt32) :
    Option (Except String ShareValidationTrace) := do
  let coinbase ← buildCoinbaseChecked job share extranonce1
  let coinbaseHash := doubleSha256 coinbase
  let validatorMerkleRoot ← applyMerkleBranchChecked doubleSha256 coinbaseHash job.merkleBranch
  let branchMerkleRoot := if job.merkleBranch ≠ [] then some validatorMerkleRoot else none
  match resolvedVersion job.version share with
  | .error e => return .error e
  | .ok mergedVersion =>
    let header := buildBlockHeader mergedVersion job.prevHash validatorMerkleRoot share.ntime
      job.nbits share.nonce
    let blockTarget ← nbitsToTargetChecked job.nbits
    let diff1Target ← nbitsToTargetChecked diff1Nbits
    let shareTarget ← divTargetByDifficultyChecked diff1Target (max poolDifficulty 1)
    return .ok {
      mergedVersion := mergedVersion
      versionBitsHex := (share.validationContext.bind (·.versionBits)).map lowerHex08
      versionRollingMaskHex := (share.validationContext.bind (·.versionRollingMask)).map lowerHex08
      merkleBranchHex := job.merkleBranch.map (Hex.encode ·.bytes)
      coinbaseHash := coinbaseHash
      validatorMerkleRoot := validatorMerkleRoot
      branchMerkleRootHex := branchMerkleRoot.map (Hex.encode ·.bytes)
      header := header
      hash := (doubleSha256 header).reverse
      blockTarget := blockTarget
      shareTarget := shareTarget }

def validateShareChecked (doubleSha256 : Bytes → Bytes32) (job : Job) (share : ShareSubmission)
    (extranonce1 : Bytes) (poolDifficulty : UInt32) : Option ShareResult := do
  let diff := max poolDifficulty 1
  let result ← buildShareValidationTraceChecked doubleSha256 job share extranonce1 diff
  match result with
  | .error reason => return .rejected reason
  | .ok trace =>
    let meetsBlockTarget ← leqBeChecked trace.hash trace.blockTarget
    let meetsShareTarget ← leqBeChecked trace.hash trace.shareTarget
    return if meetsBlockTarget then .block
      else if meetsShareTarget then .accepted
      else .lowDifficulty
        ("hash above pool target (pool difficulty " ++ diff.toNat.repr ++ ")")

def buildSolvedBlockHeaderChecked (doubleSha256 : Bytes → Bytes32) (job : Job)
    (share : ShareSubmission) (extranonce1 : Bytes) : Option (Except String Bytes) :=
  (buildShareValidationTraceChecked doubleSha256 job share extranonce1 1).map fun trace =>
    trace.map (·.header)

/-! ## Where they return -/

theorem length_buildCoinbase (job : Job) (share : ShareSubmission) (extranonce1 : Bytes) :
    (buildCoinbase job share extranonce1).length =
      job.coinbasePart1.length + extranonce1.length + share.extraNonce2.length +
        job.coinbasePart2.length := by
  simp only [buildCoinbase, List.length_append]

theorem buildCoinbaseChecked_eq (job : Job) (share : ShareSubmission) (extranonce1 : Bytes) :
    buildCoinbaseChecked job share extranonce1 =
      if (buildCoinbase job share extranonce1).length ≤ isizeMax then
        some (buildCoinbase job share extranonce1)
      else none := by
  have hmax : isizeMax < 2 ^ 64 := by decide
  rw [length_buildCoinbase, buildCoinbaseChecked]
  split
  · next hfits =>
    simp only [Option.bind_eq_bind]
    rw [usizeAdd_of_lt (by omega), Option.bind_some, usizeAdd_of_lt (by omega), Option.bind_some,
      usizeAdd_of_lt (by omega), Option.bind_some, withCapacity, if_pos hfits, Option.bind_some]
    rfl
  · next hfits =>
    simp only [usizeAdd, withCapacity, Option.bind_eq_bind]
    split
    · rw [Option.bind_some]
      split
      · rw [Option.bind_some]
        split
        · rw [Option.bind_some, if_neg hfits, Option.bind_none]
        · rfl
      · rfl
    · rfl

theorem applyMerkleBranchChecked_eq (doubleSha256 : Bytes → Bytes32) (merkleRoot : Bytes32)
    (merkleBranch : List Bytes32) :
    applyMerkleBranchChecked doubleSha256 merkleRoot merkleBranch =
      some (applyMerkleBranch doubleSha256 merkleRoot merkleBranch) := by
  induction merkleBranch generalizing merkleRoot with
  | nil => rfl
  | cons branch merkleBranch ih =>
    have hdata := copyInto_halves (List.replicate 64 0) (by simp) merkleRoot branch
    rw [applyMerkleBranchChecked, applyMerkleBranch, ← ih]
    obtain ⟨first, hfirst, hsecond⟩ := Option.bind_eq_some_iff.mp hdata
    simp only [Option.bind_eq_bind, hfirst, Option.bind_some, hsecond]

theorem toNat_shiftRight_exponent (nbits : UInt32) :
    (nbits >>> 24).toNat = compactExponent nbits := by
  rw [← toNat_exponent, UInt32.toNat_toUInt64]

/-- Above an exponent of 32 the offset of the mantissa is computed below zero. -/
theorem nbitsToTargetChecked_eq (nbits : UInt32) :
    nbitsToTargetChecked nbits =
      if compactExponent nbits ≤ 32 then some (nbitsToTarget nbits) else none := by
  rw [nbitsToTargetChecked, toNat_shiftRight_exponent]
  simp only [Option.bind_eq_bind]
  by_cases h3 : compactExponent nbits ≤ 3
  · rw [if_pos h3, if_pos (by omega), usizeSub_of_le h3, Option.bind_some,
      usizeMul_of_lt (by omega), Option.bind_some, u64Shl_of_lt (by omega), Option.bind_some,
      setByte_of_lt (by decide), Option.bind_some, setByte_of_lt (by decide), Option.bind_some,
      setByte_of_lt (by decide), Option.bind_some, setByte_of_lt (by decide),
      nbitsToTarget_low h3]
  · rw [if_neg h3, usizeSub_of_le (by omega), Option.bind_some]
    by_cases h32 : compactExponent nbits ≤ 32
    · rw [if_pos h32, usizeSub_of_le (by omega), Option.bind_some, usizeSub_of_le (by omega),
        Option.bind_some, show 32 - (compactExponent nbits - 3) - 3 = 32 - compactExponent nbits by
          omega,
        if_pos (by omega), setByte_of_lt (by omega), Option.bind_some, usizeAdd_of_lt (by omega),
        Option.bind_some, if_pos (by omega), setByte_of_lt (by omega), Option.bind_some,
        usizeAdd_of_lt (by omega), Option.bind_some, if_pos (by omega), setByte_of_lt (by omega),
        nbitsToTarget_mid (by omega) h32]
    · rw [if_neg h32]
      -- the second or the third subtraction goes below zero
      by_cases h35 : compactExponent nbits ≤ 35
      · rw [usizeSub_of_le (by omega), Option.bind_some, usizeSub_of_lt (by omega)]
        rfl
      · rw [usizeSub_of_lt (by omega)]
        rfl

/-- The loop writes the digits one behind the other into the array. -/
theorem divTargetLoopChecked_eq {divisor : UInt64} (hd : divisor ≠ 0) {i : Nat}
    {remainder : UInt64} {out : Bytes32} {bytes : Bytes} (hlen : i + bytes.length = 32) :
    ∃ res, divTargetLoopChecked divisor i remainder out bytes = some res ∧
      res.bytes = out.bytes.take i ++ divTargetLoop divisor remainder bytes := by
  induction bytes generalizing i remainder out with
  | nil =>
    refine ⟨out, rfl, ?_⟩
    rw [divTargetLoop, List.append_nil, List.take_of_length_le]
    rw [out.length_bytes, ← hlen]
    exact Nat.le_refl _
  | cons byte bytes ih =>
    rw [List.length_cons] at hlen
    have hi : i < 32 := by omega
    let value := remainder <<< 8 ||| byte.toUInt64
    obtain ⟨res, hres, hbytes⟩ := @ih (i + 1) (value % divisor)
      (out.set i (value / divisor).toUInt8) (by omega)
    refine ⟨res, ?_, ?_⟩
    · simp only [divTargetLoopChecked, Option.bind_eq_bind]
      rw [u64Div_of_ne hd, Option.bind_some, setByte_of_lt hi, Option.bind_some, u64Rem_of_ne hd,
        Option.bind_some]
      exact hres
    · have hset : (out.set i (value / divisor).toUInt8).bytes.take (i + 1) =
          out.bytes.take i ++ [(value / divisor).toUInt8] := by
        rw [List.take_succ_eq_append_getElem (by simp [hi])]
        congr 1
        · exact List.take_set_of_le (Nat.le_refl i)
        · simp [Bytes32.set]
      rw [hbytes, hset, divTargetLoop, List.append_assoc, List.singleton_append]

theorem divTargetByDifficultyChecked_eq (target : Bytes32) (difficulty : UInt32) :
    divTargetByDifficultyChecked target difficulty =
      some (divTargetByDifficulty target difficulty) := by
  rw [divTargetByDifficultyChecked, divTargetByDifficulty]
  split
  · rfl
  · next h =>
    have hd : difficulty.toUInt64 ≠ 0 := by
      intro hzero
      have := congrArg UInt64.toNat hzero
      rw [UInt32.toNat_toUInt64] at this
      exact h (UInt32.le_iff_toNat_le.mpr (by rw [this]; exact Nat.zero_le _))
    obtain ⟨res, hres, hbytes⟩ := @divTargetLoopChecked_eq _ hd 0 0 (Bytes32.fill 0) target.bytes
      (by simp)
    rw [hres]
    exact congrArg some (Bytes32.ext (by simpa using hbytes))

/-- The indices from `i` on compare what is left of the arrays. -/
theorem leqBeLoop_range' (a b : Bytes32) {i n : Nat} (h : i + n = 32) :
    leqBeLoop a b (List.range' i n) =
      some (Endian.leqBytes (a.bytes.drop i) (b.bytes.drop i)) := by
  induction n generalizing i with
  | zero =>
    have hi : i = 32 := h
    subst hi
    rw [List.drop_of_length_le (by simp)]
    rfl
  | succ n ih =>
    have ha : i < a.bytes.length := by rw [a.length_bytes]; omega
    have hb : i < b.bytes.length := by rw [b.length_bytes]; omega
    rw [List.range'_succ, leqBeLoop, List.getElem?_eq_getElem ha, List.getElem?_eq_getElem hb,
      List.drop_eq_getElem_cons ha, List.drop_eq_getElem_cons hb, Endian.leqBytes]
    simp only [Option.bind_eq_bind, Option.bind_some]
    split
    · rfl
    · split
      · rfl
      · exact ih (by omega)

theorem leqBeChecked_eq (a b : Bytes32) : leqBeChecked a b = some (leqBe a b) := by
  rw [leqBeChecked, List.range_eq_range', leqBeLoop_range' a b (by decide), leqBe, List.drop_zero,
    List.drop_zero]

/-! ## Validation -/

/-- The inputs on which a share is validated without a panic: its coinbase fits into a vector, and
either its version is rejected, in front of the target, or the job's target has an exponent byte of
at most 32. -/
def ReturnsChecked (job : Job) (share : ShareSubmission) (extranonce1 : Bytes) : Prop :=
  job.coinbasePart1.length + extranonce1.length + share.extraNonce2.length +
      job.coinbasePart2.length ≤ isizeMax ∧
    ((resolvedVersion job.version share).isOk = true → compactExponent job.nbits ≤ 32)

instance (job : Job) (share : ShareSubmission) (extranonce1 : Bytes) :
    Decidable (ReturnsChecked job share extranonce1) := inferInstanceAs (Decidable (_ ∧ (_ → _)))

section
variable (doubleSha256 : Bytes → Bytes32) (job : Job) (share : ShareSubmission)
  (extranonce1 : Bytes) (poolDifficulty : UInt32)

/-- Where the trace is built it is the one the wrapping functions build. -/
theorem buildShareValidationTraceChecked_eq :
    buildShareValidationTraceChecked doubleSha256 job share extranonce1 poolDifficulty =
      if ReturnsChecked job share extranonce1 then
        some (buildShareValidationTrace doubleSha256 job share extranonce1 poolDifficulty)
      else none := by
  have hdiff1 : nbitsToTargetChecked diff1Nbits = some diff1Target := by
    rw [nbitsToTargetChecked_eq, if_pos (by decide)]
    rfl
  rw [buildShareValidationTraceChecked, buildCoinbaseChecked_eq, length_buildCoinbase]
  simp only [Option.bind_eq_bind]
  by_cases hfits : job.coinbasePart1.length + extranonce1.length + share.extraNonce2.length +
      job.coinbasePart2.length ≤ isizeMax
  · rw [if_pos hfits, Option.bind_some, applyMerkleBranchChecked_eq, Option.bind_some,
      buildShareValidationTrace]
    cases hversion : resolvedVersion job.version share with
    | error e =>
      have hreturns : ReturnsChecked job share extranonce1 :=
        ⟨hfits, fun h => by rw [hversion] at h; cases h⟩
      rw [if_pos hreturns]
      rfl
    | ok version =>
      dsimp only
      rw [nbitsToTargetChecked_eq]
      by_cases h32 : compactExponent job.nbits ≤ 32
      · have hreturns : ReturnsChecked job share extranonce1 := ⟨hfits, fun _ => h32⟩
        rw [if_pos h32, if_pos hreturns, Option.bind_some, hdiff1, Option.bind_some,
          divTargetByDifficultyChecked_eq, Option.bind_some]
        rfl
      · have hpanics : ¬ReturnsChecked job share extranonce1 :=
          fun h => h32 (h.2 (by rw [hversion]; rfl))
        rw [if_neg h32, if_neg hpanics, Option.bind_none]
  · rw [if_neg hfits, Option.bind_none, if_neg fun h => hfits h.1]

theorem validateShareChecked_eq :
    validateShareChecked doubleSha256 job share extranonce1 poolDifficulty =
      if ReturnsChecked job share extranonce1 then
        some (validateShare doubleSha256 job share extranonce1 poolDifficulty)
      else none := by
  rw [validateShareChecked, buildShareValidationTraceChecked_eq]
  simp only [Option.bind_eq_bind]
  split
  · rw [Option.bind_some, validateShare]
    cases buildShareValidationTrace doubleSha256 job share extranonce1 (max poolDifficulty 1) with
    | error reason => rfl
    | ok trace =>
      dsimp only
      rw [leqBeChecked_eq, leqBeChecked_eq, Option.bind_some, Option.bind_some]
      rfl
  · rfl

theorem buildSolvedBlockHeaderChecked_eq :
    buildSolvedBlockHeaderChecked doubleSha256 job share extranonce1 =
      if ReturnsChecked job share extranonce1 then
        some (buildSolvedBlockHeader doubleSha256 job share extranonce1)
      else none := by
  rw [buildSolvedBlockHeaderChecked, buildShareValidationTraceChecked_eq]
  split <;> rfl

/-- In a checked build the validation of a share and the header of a block return just on these
inputs. -/
theorem returns_iff :
    ((validateShareChecked doubleSha256 job share extranonce1 poolDifficulty).isSome = true ∧
      (buildSolvedBlockHeaderChecked doubleSha256 job share extranonce1).isSome = true) ↔
      ReturnsChecked job share extranonce1 := by
  rw [validateShareChecked_eq, buildSolvedBlockHeaderChecked_eq]
  by_cases h : ReturnsChecked job share extranonce1
  · simp [h]
  · simp [h]

end

/-- A template whose `bits` have an exponent byte of 33 is mapped to a job on which the validation
of a share panics, whatever the hash, the extranonce and the difficulty are. -/
theorem panics_of_bits : ∃ job,
    templateToJob .ofFormat { fixtureTemplate [] with bits := ⟨"21000001", by decide⟩ }
      fixturePayoutScript = .ok job ∧
    decodeBits "21000001" = .ok job.nbits ∧
    ∀ doubleSha256 : Bytes → Bytes32,
      validateShareChecked doubleSha256 job (fixtureShare job.jobId) [0, 0, 0, 1] 1 = none ∧
      buildSolvedBlockHeaderChecked doubleSha256 job (fixtureShare job.jobId) [0, 0, 0, 1] =
        none := by
  have hok : (templateToJob .ofFormat { fixtureTemplate [] with bits := ⟨"21000001", by decide⟩ }
      fixturePayoutScript).isOk = true := by decide +kernel
  obtain ⟨job, hjob⟩ := Except.exists_of_isOk hok
  have hbits := (MappedJob.of_templateToJob hjob).nbits
  have hnbits : job.nbits = 0x21000001 := by
    have hdecode : decodeBits "21000001" = .ok 0x21000001 := by decide +kernel
    exact Except.ok.inj (hbits.symm.trans hdecode)
  have hpanics : ¬ReturnsChecked job (fixtureShare job.jobId) [0, 0, 0, 1] := by
    rintro ⟨-, hexponent⟩
    have := hexponent rfl
    rw [hnbits] at this
    exact absurd this (by decide)
  refine ⟨job, hjob, hbits, fun doubleSha256 => ⟨?_, ?_⟩⟩
  · rw [validateShareChecked_eq, if_neg hpanics]
  · rw [buildSolvedBlockHeaderChecked_eq, if_neg hpanics]

end AzcoinPool
