import AzcoinPool.Coin.ShareValidator
import AzcoinPool.Core.ShareProcessor

/-!
# What a share is worth

The purpose of share processing in arithmetical terms: `shareKind` orders the six outcomes by
priority and compares the little-endian integer of the header's hash with the two targets as
numbers. `processShare_kind` shows that the processor with the AZCOIN validator computes it.
-/

open Endian

namespace AzcoinPool

/-- The outcome of a share without its reason. -/
inductive ShareKind where
  | accepted | block | lowDifficulty | malformed | unknownJob | rejected
  deriving DecidableEq

def ShareResult.kind : ShareResult → ShareKind
  | accepted => .accepted
  | block => .block
  | lowDifficulty _ => .lowDifficulty
  | malformed _ => .malformed
  | unknownJob _ => .unknownJob
  | rejected _ => .rejected

/-! ## The outcome as a comparison of numbers -/

/-- The context expects another extranonce2 length than the share has. -/
def ExtraNonce2Mismatch (share : ShareSubmission) : Prop :=
  ∃ ctx ∈ share.validationContext, ∃ n ∈ ctx.expectedExtraNonce2Len, n ≠ share.extraNonce2.length

/-- The share has version bits and no mask, or a bit outside the mask. -/
def VersionBitsOutsideMask (share : ShareSubmission) : Prop :=
  ∃ ctx ∈ share.validationContext, ∃ bits ∈ ctx.versionBits,
    ∀ mask ∈ ctx.versionRollingMask, bits &&& ~~~mask ≠ 0

/-- The extranonce1 a share is hashed with, if it has one: what the text in its context decodes to,
and without a text four zero bytes. -/
def headerExtranonce1 (share : ShareSubmission) : Option Bytes :=
  match share.validationContext.bind (·.extranonce1Hex) with
  | none => some [0, 0, 0, 0]
  | some text => (Hex.decode text).toOption

/-- The version of the header: the job's, with the masked bits from the share. -/
def headerVersion (job : Job) (share : ShareSubmission) : UInt32 :=
  match share.validationContext with
  | some ⟨_, _, some mask, some bits⟩ => (job.version &&& ~~~mask) ||| (bits &&& mask)
  | _ => job.version

/-- The 80-byte header a share stands for. -/
def shareHeader (doubleSha256 : Bytes → Bytes32) (job : Job) (share : ShareSubmission)
    (en1 : Bytes) : Bytes :=
  let coinbase := job.coinbasePart1 ++ en1 ++ share.extraNonce2 ++ job.coinbasePart2
  let root := job.merkleBranch.foldl (fun acc b => doubleSha256 (acc.bytes ++ b.bytes))
    (doubleSha256 coinbase)
  leBytes 4 (headerVersion job share).toNat ++ job.prevHash.bytes ++ root.bytes ++
    leBytes 4 share.ntime.toNat ++ leBytes 4 job.nbits.toNat ++ leBytes 4 share.nonce.toNat

instance (share : ShareSubmission) : Decidable (ExtraNonce2Mismatch share) :=
  inferInstanceAs (Decidable (∃ ctx ∈ share.validationContext, ∃ n ∈ ctx.expectedExtraNonce2Len, _))

instance (share : ShareSubmission) : Decidable (VersionBitsOutsideMask share) :=
  inferInstanceAs (Decidable (∃ ctx ∈ share.validationContext, ∃ bits ∈ ctx.versionBits,
    ∀ mask ∈ ctx.versionRollingMask, _))

/-- The outcome of a share at pool difficulty `d`, with `N` the integer of the header's hash and
`T` the block target. -/
def shareKind (doubleSha256 : Bytes → Bytes32) (registry : ActiveJobRegistry)
    (share : ShareSubmission) (d : UInt32) : ShareKind :=
  if ExtraNonce2Mismatch share ∨ VersionBitsOutsideMask share then .rejected
  else
    match registry.getJob share.jobId with
    | none => .unknownJob
    | some job =>
      match headerExtranonce1 share with
      | none => .malformed
      | some en1 =>
        let N := leNat (doubleSha256 (shareHeader doubleSha256 job share en1)).bytes
        let T := beNat (nbitsToTarget job.nbits).bytes
        if N ≤ T then .block
        else if N ≤ beNat (nbitsToTarget 0x1d00ffff).bytes / max d.toNat 1 then .accepted
        else .lowDifficulty

/-! ## The processor computes the outcome -/

/-- The processor with the AZCOIN validator. -/
def azcoinShareProcessor (doubleSha256 : Bytes → Bytes32) (poolDifficulty : UInt32)
    (shareSink : Bool) : JobAwareShareProcessor :=
  ⟨some (validateShare doubleSha256), poolDifficulty, shareSink⟩

theorem toOption_shareExtranonce1 (share : ShareSubmission) :
    (shareExtranonce1 share).toOption = headerExtranonce1 share := by
  rw [shareExtranonce1, headerExtranonce1]
  cases share.validationContext.bind (·.extranonce1Hex) <;> rfl

theorem shareExtranonce1_eq_ok {share : ShareSubmission} {en1 : Bytes} :
    shareExtranonce1 share = .ok en1 ↔ headerExtranonce1 share = some en1 := by
  rw [← toOption_shareExtranonce1]
  cases shareExtranonce1 share <;> simp [Except.toOption]

theorem rejectExtraNonce2_eq_none (ctx : ShareValidationContext) (share : ShareSubmission) :
    rejectExtraNonce2 ctx share = none ↔
      ∀ n ∈ ctx.expectedExtraNonce2Len, n = share.extraNonce2.length := by
  rw [rejectExtraNonce2]
  cases ctx.expectedExtraNonce2Len <;> simp [eq_comm]

theorem rejectVersionBits_eq_none (ctx : ShareValidationContext) :
    rejectVersionBits ctx = none ↔
      ∀ bits ∈ ctx.versionBits, ∃ mask ∈ ctx.versionRollingMask, bits &&& ~~~mask = 0 := by
  rw [rejectVersionBits]
  cases ctx.versionBits <;> cases ctx.versionRollingMask <;> simp

/-- The shape checks reject just the two kinds of misshapen share. -/
theorem rejectShape_eq_none (share : ShareSubmission) :
    rejectShape share = none ↔ ¬(ExtraNonce2Mismatch share ∨ VersionBitsOutsideMask share) := by
  rw [rejectShape, ExtraNonce2Mismatch, VersionBitsOutsideMask]
  cases share.validationContext with
  | none => simp
  | some ctx =>
    simp only [Option.or_eq_none_iff, rejectExtraNonce2_eq_none, rejectVersionBits_eq_none]
    simp

/-- A share the shape checks reject is `Rejected`. -/
theorem kind_of_rejectShape {share : ShareSubmission} {result : ShareResult}
    (h : rejectShape share = some result) : result.kind = .rejected := by
  rw [rejectShape] at h
  split at h
  · cases h
  · rcases Option.or_eq_some_iff.mp h with h | ⟨-, h⟩
    · rw [rejectExtraNonce2] at h
      split at h
      · cases h
      · split at h
        · cases h; rfl
        · cases h
    · rw [rejectVersionBits] at h
      split at h
      · cases h
      · split at h
        · split at h
          · cases h; rfl
          · cases h
        · cases h; rfl

/-- A share in shape resolves its version. -/
theorem resolvedVersion_of_rejectShape {share : ShareSubmission} (h : rejectShape share = none)
    (job : Job) : resolvedVersion job.version share = .ok (headerVersion job share) := by
  rw [rejectShape_eq_none] at h
  have hbits : ¬VersionBitsOutsideMask share := fun hv => h (.inr hv)
  rw [resolvedVersion, headerVersion]
  unfold VersionBitsOutsideMask at hbits
  split
  · next hctx => rw [hctx]
  · next ctx hctx =>
    obtain ⟨len, en1, mask?, bits?⟩ := ctx
    rw [hctx] at hbits ⊢
    cases bits? with
    | none => cases mask? <;> rfl
    | some bits =>
      cases mask? with
      | none => simp at hbits
      | some mask =>
        have hmask : bits &&& ~~~mask = 0 := by simpa using hbits
        simp [hmask]

/-- The header the validator hashes is the one the share stands for. -/
theorem buildSolvedBlockHeader_of_rejectShape {share : ShareSubmission}
    (h : rejectShape share = none) (doubleSha256 : Bytes → Bytes32) (job : Job) (en1 : Bytes) :
    buildSolvedBlockHeader doubleSha256 job share en1 =
      .ok (shareHeader doubleSha256 job share en1) := by
  rw [buildSolvedBlockHeader_eq, resolvedVersion_of_rejectShape h, shareMerkleRoot,
    applyMerkleBranch_eq_foldl]
  rfl

/-- The processor classifies every share as `shareKind` does. -/
theorem processShare_kind (doubleSha256 : Bytes → Bytes32) (registry : ActiveJobRegistry)
    (records : ShareRecords) (share : ShareSubmission) (d : UInt32) (shareSink : Bool) :
    ((azcoinShareProcessor doubleSha256 d shareSink).processShare registry records share).1.kind =
      shareKind doubleSha256 registry share d := by
  rw [shareKind, JobAwareShareProcessor.processShare]
  cases hshape : rejectShape share with
  | some result =>
    have hbad : ExtraNonce2Mismatch share ∨ VersionBitsOutsideMask share := by
      by_contra hgood
      rw [(rejectShape_eq_none share).mpr hgood] at hshape
      cases hshape
    rw [if_pos hbad]
    exact kind_of_rejectShape hshape
  | none =>
    rw [if_neg ((rejectShape_eq_none share).mp hshape)]
    simp only [Option.getD_none, JobAwareShareProcessor.judge, azcoinShareProcessor]
    cases registry.getJob share.jobId with
    | none => rfl
    | some job =>
      rw [← toOption_shareExtranonce1]
      cases shareExtranonce1 share with
      | error e => rfl
      | ok en1 =>
        simp only [Except.toOption]
        have hmax : (max d 1).toNat = max d.toNat 1 := by
          have hdef : max d 1 = if d ≤ 1 then 1 else d := rfl
          rw [hdef]
          split
          · next h => exact (Nat.max_eq_right h).symm
          · next h => exact (Nat.max_eq_left (Nat.le_of_not_le h)).symm
        simp only [validateShare_eq, buildSolvedBlockHeader_of_rejectShape hshape,
          leqBe_reverse_iff, beNat_divTargetByDifficulty, hmax, Nat.max_assoc,
          Nat.max_self, diff1Target, diff1Nbits]
        split
        · rfl
        · split <;> rfl

/-! ## Blocks -/

/-- A block is a share in shape. -/
theorem rejectShape_of_processShare_eq_block {p : JobAwareShareProcessor}
    {registry : ActiveJobRegistry} {records : ShareRecords} {share : ShareSubmission}
    (h : (p.processShare registry records share).1 = .block) : rejectShape share = none := by
  rw [JobAwareShareProcessor.processShare] at h
  cases hshape : rejectShape share with
  | none => rfl
  | some result =>
    have hkind := kind_of_rejectShape hshape
    simp only [hshape, Option.getD_some] at h
    rw [h] at hkind
    cases hkind

/-- The job of a block was found and judged so. -/
theorem judge_of_processShare_eq_block {p : JobAwareShareProcessor} {registry : ActiveJobRegistry}
    {records : ShareRecords} {share : ShareSubmission}
    (h : (p.processShare registry records share).1 = .block) :
    p.judge (registry.getJob share.jobId) share = .block := by
  have hshape := rejectShape_of_processShare_eq_block h
  simpa [JobAwareShareProcessor.processShare, hshape] using h

/-- The extranonce1 and the header of a share that is judged a block. -/
theorem exists_header_of_judge_eq_block {doubleSha256 : Bytes → Bytes32} {d : UInt32}
    {shareSink : Bool} {job : Job} {share : ShareSubmission}
    (h : (azcoinShareProcessor doubleSha256 d shareSink).judge (some job) share = .block) :
    ∃ extranonce1 header, shareExtranonce1 share = .ok extranonce1 ∧
      buildSolvedBlockHeader doubleSha256 job share extranonce1 = .ok header := by
  simp only [JobAwareShareProcessor.judge, azcoinShareProcessor] at h
  cases hen1 : shareExtranonce1 share with
  | error e => rw [hen1] at h; cases h
  | ok extranonce1 =>
    simp only [hen1, validateShare_eq] at h
    cases hheader : buildSolvedBlockHeader doubleSha256 job share extranonce1 with
    | error reason => rw [hheader] at h; cases h
    | ok header => exact ⟨extranonce1, header, rfl, hheader⟩

/-- A share that is judged a block was hashed below the block target. -/
theorem leqBe_of_judge_eq_block {doubleSha256 : Bytes → Bytes32} {d : UInt32} {shareSink : Bool}
    {job : Job} {share : ShareSubmission} {extranonce1 : Bytes} {trace : ShareValidationTrace}
    (h : (azcoinShareProcessor doubleSha256 d shareSink).judge (some job) share = .block)
    (hen1 : shareExtranonce1 share = .ok extranonce1)
    (htrace : buildShareValidationTrace doubleSha256 job share extranonce1 (max d 1) = .ok trace) :
    leqBe trace.hash trace.blockTarget = true := by
  simp only [JobAwareShareProcessor.judge, azcoinShareProcessor, hen1] at h
  unfold validateShare at h
  dsimp only at h
  rw [htrace] at h
  dsimp only at h
  split at h
  · next hleq => exact hleq
  · split at h <;> cases h

end AzcoinPool
