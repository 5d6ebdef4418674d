import AzcoinPool.Core.Job
import AzcoinPool.Lib.Hex

/-!
# Validating a share

`share_validator.rs`: the coinbase and the header a share stands for, the targets, and the verdict.
Integer arithmetic wraps, as in a release build. `doubleSha256` stands for SHA256d throughout. The
facts on the targets are arithmetical: the bytewise comparison compares the big-endian values
(`leqBe_iff`), and the bytewise division divides them (`beNat_divTargetByDifficulty`).
-/

open Endian

namespace AzcoinPool

/-- `DIFF1_NBITS`. -/
def diff1Nbits : UInt32 := 0x1d00ffff

/-! ## Header and coinbase -/

def buildCoinbase (job : Job) (share : ShareSubmission) (extranonce1 : Bytes) : Bytes :=
  job.coinbasePart1 ++ extranonce1 ++ share.extraNonce2 ++ job.coinbasePart2

/-- The loop of `apply_merkle_branch`. -/
def applyMerkleBranch (doubleSha256 : Bytes → Bytes32) (merkleRoot : Bytes32) :
    List Bytes32 → Bytes32
  | [] => merkleRoot
  | branch :: merkleBranch =>
    applyMerkleBranch doubleSha256 (doubleSha256 (merkleRoot.bytes ++ branch.bytes)) merkleBranch

def resolvedVersion (jobVersion : UInt32) (share : ShareSubmission) : Except String UInt32 :=
  match share.validationContext with
  | none => .ok jobVersion
  | some ctx =>
    match ctx.versionBits with
    | none => .ok jobVersion
    | some versionBits =>
      match ctx.versionRollingMask with
      | none => .error "version rolling not negotiated"
      | some mask =>
        if versionBits &&& ~~~mask ≠ 0 then
          .error ("version_bits " ++ lowerHex08 versionBits ++ " outside negotiated mask " ++
            lowerHex08 mask)
        else .ok ((jobVersion &&& ~~~mask) ||| (versionBits &&& mask))

def buildBlockHeader (version : UInt32) (prevHash merkleRoot : Bytes32)
    (ntime nbits nonce : UInt32) : Bytes :=
  toLeBytes version ++ prevHash.bytes ++ merkleRoot.bytes ++ toLeBytes ntime ++ toLeBytes nbits ++
    toLeBytes nonce

@[simp] theorem length_buildBlockHeader (version : UInt32) (prevHash merkleRoot : Bytes32)
    (ntime nbits nonce : UInt32) :
    (buildBlockHeader version prevHash merkleRoot ntime nbits nonce).length = 80 := by
  simp [buildBlockHeader]

theorem exists_buildBlockHeader_eq (version : UInt32) (prevHash merkleRoot : Bytes32)
    (ntime nbits nonce : UInt32) :
    ∃ rest, buildBlockHeader version prevHash merkleRoot ntime nbits nonce =
      toLeBytes version ++ rest :=
  ⟨prevHash.bytes ++
      (merkleRoot.bytes ++ (toLeBytes ntime ++ (toLeBytes nbits ++ toLeBytes nonce))),
    by simp only [buildBlockHeader, List.append_assoc]⟩

/-! ## Targets -/

def nbitsToTarget (nbits : UInt32) : Bytes32 :=
  let target := Bytes32.fill 0
  let exponent : UInt64 := (nbits >>> 24).toUInt64
  let mantissa : UInt32 := nbits &&& 0xffffff
  if exponent ≤ 3 then
    let v : UInt64 := mantissa.toUInt64 <<< (8 * (3 - exponent))
    (((target.set 28 (v >>> 24).toUInt8).set 29 (v >>> 16).toUInt8).set 30 (v >>> 8).toUInt8).set 31
      v.toUInt8
  else
    let shift := exponent - 3
    -- wraps for an exponent above 32, and the target is then left at zero
    let byteOffset := 32 - shift - 3
    if byteOffset < 32 then
      let target := target.set byteOffset.toNat (mantissa >>> 16).toUInt8
      let target :=
        if byteOffset + 1 < 32 then target.set (byteOffset + 1).toNat (mantissa >>> 8).toUInt8
        else target
      if byteOffset + 2 < 32 then target.set (byteOffset + 2).toNat mantissa.toUInt8 else target
    else target

def diff1Target : Bytes32 := nbitsToTarget diff1Nbits

/-- The loop of `div_target_by_difficulty`. -/
def divTargetLoop (divisor remainder : UInt64) : Bytes → Bytes
  | [] => []
  | byte :: bytes =>
    let value := remainder <<< 8 ||| byte.toUInt64
    (value / divisor).toUInt8 :: divTargetLoop divisor (value % divisor) bytes

@[simp] theorem length_divTargetLoop (divisor remainder : UInt64) (bytes : Bytes) :
    (divTargetLoop divisor remainder bytes).length = bytes.length := by
  induction bytes generalizing remainder with
  | nil => rfl
  | cons byte bytes ih => simp [divTargetLoop, ih]

def divTargetByDifficulty (target : Bytes32) (difficulty : UInt32) : Bytes32 :=
  if difficulty ≤ 1 then target
  else ⟨divTargetLoop difficulty.toUInt64 0 target.bytes, by simp⟩

/-- `leq_be`: the bytes are compared from the first on. -/
def leqBe (a b : Bytes32) : Bool := leqBytes a.bytes b.bytes

/-! ## The verdict -/

structure ShareValidationTrace where
  mergedVersion : UInt32
  versionBitsHex : Option String
  versionRollingMaskHex : Option String
  merkleBranchHex : List String
  coinbaseHash : Bytes32
  validatorMerkleRoot : Bytes32
  branchMerkleRootHex : Option String
  header : Bytes
  hash : Bytes32
  blockTarget : Bytes32
  shareTarget : Bytes32
  deriving DecidableEq

def buildShareValidationTrace (doubleSha256 : Bytes → Bytes32) (job : Job)
    (share : ShareSubmission) (extranonce1 : Bytes) (poolDifficulty : UInt32) :
    Except String ShareValidationTrace := do
  let coinbase := buildCoinbase job share extranonce1
  let coinbaseHash := doubleSha256 coinbase
  let validatorMerkleRoot := applyMerkleBranch doubleSha256 coinbaseHash job.merkleBranch
  let branchMerkleRoot := if job.merkleBranch ≠ [] then some validatorMerkleRoot else none
  let mergedVersion ← resolvedVersion job.version share
  let header := buildBlockHeader mergedVersion job.prevHash validatorMerkleRoot share.ntime
    job.nbits share.nonce
  return {
    mergedVersion := mergedVersion
    versionBitsHex := (share.validationContext.bind (·.versionBits)).map lowerHex08
    versionRollingMaskHex := (share.validationContext.bind (·.versionRollingMask)).map lowerHex08
    merkleBranchHex := job.merkleBranch.map (Hex.encode ·.bytes)
    coinbaseHash := coinbaseHash
    validatorMerkleRoot := validatorMerkleRoot
    branchMerkleRootHex := branchMerkleRoot.map (Hex.encode ·.bytes)
    header := header
    hash := (doubleSha256 header).reverse
    blockTarget := nbitsToTarget job.nbits
    shareTarget := divTargetByDifficulty diff1Target (max poolDifficulty 1) }

/-- `AzcoinShareValidator::validate_share`. -/
def validateShare (doubleSha256 : Bytes → Bytes32) (job : Job) (share : ShareSubmission)
    (extranonce1 : Bytes) (poolDifficulty : UInt32) : ShareResult :=
  let diff := max poolDifficulty 1
  match buildShareValidationTrace doubleSha256 job share extranonce1 diff with
  | .error reason => .rejected reason
  | .ok trace =>
    if leqBe trace.hash trace.blockTarget then .block
    else if leqBe trace.hash trace.shareTarget then .accepted
    else .lowDifficulty
      ("hash above pool target (pool difficulty " ++ diff.toNat.repr ++ ")")

def buildSolvedBlockHeader (doubleSha256 : Bytes → Bytes32) (job : Job) (share : ShareSubmission)
    (extranonce1 : Bytes) : Except String Bytes :=
  (buildShareValidationTrace doubleSha256 job share extranonce1 1).map (·.header)

/-! ## The header of a share -/

theorem applyMerkleBranch_eq_foldl (doubleSha256 : Bytes → Bytes32) (root : Bytes32)
    (merkleBranch : List Bytes32) :
    applyMerkleBranch doubleSha256 root merkleBranch =
      merkleBranch.foldl (fun acc branch => doubleSha256 (acc.bytes ++ branch.bytes)) root := by
  induction merkleBranch generalizing root with
  | nil => rfl
  | cons branch merkleBranch ih => exact ih _

/-- The merkle root a share's header commits to. -/
def shareMerkleRoot (doubleSha256 : Bytes → Bytes32) (job : Job) (share : ShareSubmission)
    (extranonce1 : Bytes) : Bytes32 :=
  applyMerkleBranch doubleSha256 (doubleSha256 (buildCoinbase job share extranonce1))
    job.merkleBranch

/-- The header is the one of the resolved version, or the version's error. -/
theorem buildSolvedBlockHeader_eq (doubleSha256 : Bytes → Bytes32) (job : Job)
    (share : ShareSubmission) (extranonce1 : Bytes) :
    buildSolvedBlockHeader doubleSha256 job share extranonce1 =
      (resolvedVersion job.version share).map fun version =>
        buildBlockHeader version job.prevHash (shareMerkleRoot doubleSha256 job share extranonce1)
          share.ntime job.nbits share.nonce := by
  rw [buildSolvedBlockHeader, buildShareValidationTrace]
  cases resolvedVersion job.version share <;> rfl

/-- There is a header just when the version resolves. -/
theorem isOk_buildSolvedBlockHeader (doubleSha256 : Bytes → Bytes32) (job : Job)
    (share : ShareSubmission) (extranonce1 : Bytes) :
    (buildSolvedBlockHeader doubleSha256 job share extranonce1).isOk =
      (resolvedVersion job.version share).isOk := by
  rw [buildSolvedBlockHeader_eq]
  cases resolvedVersion job.version share <;> rfl

/-- A share that resolves its version has a trace and a header, which starts with the version. -/
theorem exists_trace_of_resolvedVersion {job : Job} {share : ShareSubmission} {version : UInt32}
    (h : resolvedVersion job.version share = .ok version) (doubleSha256 : Bytes → Bytes32)
    (extranonce1 : Bytes) (poolDifficulty : UInt32) : ∃ trace rest,
      buildShareValidationTrace doubleSha256 job share extranonce1 poolDifficulty = .ok trace ∧
      buildSolvedBlockHeader doubleSha256 job share extranonce1 = .ok trace.header ∧
      trace.header = toLeBytes version ++ rest := by
  rw [buildSolvedBlockHeader_eq, h]
  cases htrace : buildShareValidationTrace doubleSha256 job share extranonce1 poolDifficulty with
  | error e => rw [buildShareValidationTrace, h] at htrace; cases htrace
  | ok trace =>
    rw [buildShareValidationTrace, h] at htrace
    cases htrace
    obtain ⟨rest, hrest⟩ := exists_buildBlockHeader_eq version job.prevHash
      (shareMerkleRoot doubleSha256 job share extranonce1) share.ntime job.nbits share.nonce
    exact ⟨_, rest, rfl, rfl, hrest⟩

/-- A header that is built has some version. -/
theorem exists_version_of_buildSolvedBlockHeader {doubleSha256 : Bytes → Bytes32} {job : Job}
    {share : ShareSubmission} {extranonce1 header : Bytes}
    (h : buildSolvedBlockHeader doubleSha256 job share extranonce1 = .ok header) :
    ∃ version, header = buildBlockHeader version job.prevHash
      (shareMerkleRoot doubleSha256 job share extranonce1) share.ntime job.nbits share.nonce := by
  rw [buildSolvedBlockHeader_eq] at h
  cases hversion : resolvedVersion job.version share with
  | error e => rw [hversion] at h; cases h
  | ok version =>
    rw [hversion] at h
    cases h
    exact ⟨version, rfl⟩

theorem length_of_buildSolvedBlockHeader {doubleSha256 : Bytes → Bytes32} {job : Job}
    {share : ShareSubmission} {extranonce1 header : Bytes}
    (h : buildSolvedBlockHeader doubleSha256 job share extranonce1 = .ok header) :
    header.length = 80 := by
  obtain ⟨version, rfl⟩ := exists_version_of_buildSolvedBlockHeader h
  exact length_buildBlockHeader ..

/-- Jobs that give the same work give a share the same header. -/
theorem buildSolvedBlockHeader_congr {a b : Job} (h : a.SameWork b)
    (doubleSha256 : Bytes → Bytes32) (share : ShareSubmission) (extranonce1 : Bytes) :
    buildSolvedBlockHeader doubleSha256 a share extranonce1 =
      buildSolvedBlockHeader doubleSha256 b share extranonce1 := by
  simp only [buildSolvedBlockHeader_eq, shareMerkleRoot, buildCoinbase, h.prevHash,
    h.coinbasePart1, h.coinbasePart2, h.merkleBranch, h.version, h.nbits]

/-- A validated share's verdict, from the header that was hashed. -/
theorem validateShare_eq (doubleSha256 : Bytes → Bytes32) (job : Job) (share : ShareSubmission)
    (extranonce1 : Bytes) (poolDifficulty : UInt32) :
    validateShare doubleSha256 job share extranonce1 poolDifficulty =
      match buildSolvedBlockHeader doubleSha256 job share extranonce1 with
      | .error reason => .rejected reason
      | .ok header =>
        if leqBe (doubleSha256 header).reverse (nbitsToTarget job.nbits) then .block
        else if leqBe (doubleSha256 header).reverse
          (divTargetByDifficulty diff1Target (max poolDifficulty 1)) then .accepted
        else .lowDifficulty
          ("hash above pool target (pool difficulty " ++ (max poolDifficulty 1).toNat.repr ++
            ")") := by
  have hdef (d : UInt32) : max d 1 = if d ≤ 1 then 1 else d := rfl
  have hmax : max (max poolDifficulty 1) 1 = max poolDifficulty 1 := by
    rw [hdef, hdef]
    split <;> rfl
  rw [validateShare, buildSolvedBlockHeader, buildShareValidationTrace, buildShareValidationTrace]
  cases resolvedVersion job.version share with
  | error reason => rfl
  | ok version => simp only [bind, Except.bind, pure, Except.pure, Except.map, hmax]

/-! ## Arithmetic of the targets -/

theorem leqBe_iff (a b : Bytes32) : leqBe a b = true ↔ beNat a.bytes ≤ beNat b.bytes :=
  leqBytes_iff (by simp)

/-- Reversed, a hash is compared by its little-endian value. -/
theorem leqBe_reverse_iff (a b : Bytes32) :
    leqBe a.reverse b = true ↔ leNat a.bytes ≤ beNat b.bytes := by
  rw [leqBe_iff, Bytes32.bytes_reverse, beNat_reverse]

/-- A remainder of 32 bits leaves room for the eight bits of the next byte. -/
theorem toNat_shift_or {remainder : UInt64} (hr : remainder.toNat < 2 ^ 32) (byte : UInt8) :
    (remainder <<< 8 ||| byte.toUInt64).toNat = remainder.toNat * 256 + byte.toNat := by
  rw [UInt64.toNat_or, UInt64.toNat_shiftLeft, UInt8.toNat_toUInt64]
  have hshift : remainder.toNat <<< ((8 : UInt64).toNat % 64) % 2 ^ 64 =
      remainder.toNat <<< 8 := by
    rw [show (8 : UInt64).toNat % 64 = 8 from rfl, Nat.shiftLeft_eq]
    omega
  rw [hshift, ← Nat.shiftLeft_add_eq_or_of_lt byte.toNat_lt, Nat.shiftLeft_eq]

/-- The loop is long division: a remainder below the divisor leaves room for eight more bits. -/
theorem divTargetLoop_eq_longDiv {divisor remainder : UInt64} (hd : divisor.toNat < 2 ^ 32)
    (hr : remainder.toNat < divisor.toNat) (bytes : Bytes) :
    divTargetLoop divisor remainder bytes = longDiv divisor.toNat remainder.toNat bytes := by
  induction bytes generalizing remainder with
  | nil => rfl
  | cons byte bytes ih =>
    have hvalue := toNat_shift_or (Nat.lt_trans hr hd) byte
    have hrem := Nat.mod_lt (remainder.toNat * 256 + byte.toNat) (by omega : 0 < divisor.toNat)
    simp only [divTargetLoop, longDiv]
    rw [ih (by rw [UInt64.toNat_mod, hvalue]; exact hrem), UInt64.toNat_mod, hvalue]
    congr 1
    rw [← UInt8.toNat_inj, UInt64.toNat_toUInt8, UInt64.toNat_div, hvalue, UInt8.toNat_ofNat']

/-- Bytewise division by a difficulty divides the big-endian value. -/
theorem beNat_divTargetByDifficulty (target : Bytes32) (difficulty : UInt32) :
    beNat (divTargetByDifficulty target difficulty).bytes =
      beNat target.bytes / max difficulty.toNat 1 := by
  rw [divTargetByDifficulty]
  split
  · next h =>
    have h1 : difficulty.toNat ≤ 1 := h
    rw [Nat.max_eq_right h1, Nat.div_one]
  · next h =>
    have h1 : ¬difficulty.toNat ≤ 1 := h
    have hlt := difficulty.toNat_lt
    have hpos : (0 : UInt64).toNat < difficulty.toUInt64.toNat := by
      rw [UInt32.toNat_toUInt64]
      simp only [UInt64.toNat_zero]
      omega
    change beNat (divTargetLoop difficulty.toUInt64 0 target.bytes) = _
    rw [divTargetLoop_eq_longDiv (by rw [UInt32.toNat_toUInt64]; exact hlt) hpos,
      beNat_longDiv hpos, UInt32.toNat_toUInt64, UInt64.toNat_zero, Nat.zero_mul, Nat.zero_add,
      Nat.max_eq_left (by omega)]

end AzcoinPool
