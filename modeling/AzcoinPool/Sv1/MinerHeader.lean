import AzcoinPool.Coin.ShareValidator
import AzcoinPool.Coin.TemplateMapper
import AzcoinPool.Sv1.Notify

/-!
# The header a miner builds

A Stratum V1 miner reads a job off `mining.notify` and hashes a header of its own making
(`minerHeader`). The pool hashes the header it builds from the job. The two agree in every field but
one: the notification reverses the branch entries and the validator does not, so the merkle roots
agree, for any hash function, just when every entry reads the same in both directions
(`minerHeader_eq_solvedHeader_iff`).
-/

open Endian

namespace AzcoinPool

/-! ## The miner -/

/-- What a miner takes from `mining.notify`. -/
structure MinerWork where
  prevhash : String
  coinb1 : String
  coinb2 : String
  merkleBranch : List String
  version : String
  nbits : String

/-- The parameters of a notification, by position. -/
def readNotify (notify : Value) : Option MinerWork := do
  let members ← notify.asObject
  let params ← (memberGet members "params").bind Value.asArray
  let prevhash ← params[1]?.bind Value.asStr
  let coinb1 ← params[2]?.bind Value.asStr
  let coinb2 ← params[3]?.bind Value.asStr
  let merkleBranch ← params[4]?.bind Value.asArray
  let merkleBranch ← merkleBranch.mapM Value.asStr
  let version ← params[5]?.bind Value.asStr
  let nbits ← params[6]?.bind Value.asStr
  return ⟨prevhash, coinb1, coinb2, merkleBranch, version, nbits⟩

/-- A miner's `unhex`. -/
def unhex (s : String) : Option Bytes := (Hex.decode s).toOption

/-- The header a miner builds: the coinbase around its extranonces, the fold over the branch strings
as they were sent, and the fields, `version` and `nbits` read as big-endian hexadecimal numbers. -/
def minerHeader (doubleSha256 : Bytes → Bytes32) (notify : Value) (en1 en2 : Bytes)
    (ntime nonce : UInt32) : Option Bytes := do
  let work ← readNotify notify
  let coinb1 ← unhex work.coinb1
  let coinb2 ← unhex work.coinb2
  let branch ← work.merkleBranch.mapM unhex
  let prevhash ← unhex work.prevhash
  let version ← unhex work.version
  let nbits ← unhex work.nbits
  let root := branch.foldl (fun acc b => doubleSha256 (acc.bytes ++ b))
    (doubleSha256 (coinb1 ++ en1 ++ en2 ++ coinb2))
  return leBytes 4 (beNat version) ++ wordSwap prevhash ++ root.bytes ++
    leBytes 4 ntime.toNat ++ leBytes 4 (beNat nbits) ++ leBytes 4 nonce.toNat

/-! ## What the miner builds from a job -/

@[simp] theorem unhex_encode (bs : Bytes) : unhex (Hex.encode bs) = some bs := by
  rw [unhex, Hex.decode_encode]
  rfl

theorem unhex_lowerHex08 (n : UInt32) : unhex (lowerHex08 n) = some (toLeBytes n).reverse := by
  rw [unhex, Hex.decode_lowerHex08]
  rfl

/-- Read back from hexadecimal text, an integer has its little-endian bytes. -/
theorem leBytes_beNat_toLeBytes (n : UInt32) :
    leBytes 4 (beNat (toLeBytes n).reverse) = toLeBytes n := by
  have hn : n.toNat < 256 ^ 4 := n.toNat_lt
  rw [beNat_reverse, toLeBytes, leNat_leBytes hn]

theorem readNotify_buildMiningNotify (job : Job) :
    readNotify (buildMiningNotify job) = some ⟨hexEncodePrevhashSv1 job.prevHash,
      Hex.encode job.coinbasePart1, Hex.encode job.coinbasePart2,
      job.merkleBranch.map hexEncodeReversed, lowerHex08 job.version, lowerHex08 job.nbits⟩ := by
  have hbranch : (job.merkleBranch.map fun b => Value.string (hexEncodeReversed b)).mapM
      Value.asStr = some (job.merkleBranch.map hexEncodeReversed) := by
    induction job.merkleBranch with
    | nil => rfl
    | cons b branch ih => simp [List.mapM_cons, Value.asStr, ih]
  simp [readNotify, buildMiningNotify, Value.asObject, memberGet, List.lookup_cons, Value.asArray,
    Value.asStr, hbranch]

/-- The miner's header is the job's, but for the reversed branch entries. -/
theorem minerHeader_buildMiningNotify (doubleSha256 : Bytes → Bytes32) (job : Job)
    (en1 en2 : Bytes) (ntime nonce : UInt32) :
    minerHeader doubleSha256 (buildMiningNotify job) en1 en2 ntime nonce =
      some (buildBlockHeader job.version job.prevHash
        (applyMerkleBranch doubleSha256
          (doubleSha256 (job.coinbasePart1 ++ en1 ++ en2 ++ job.coinbasePart2))
          (job.merkleBranch.map Bytes32.reverse))
        ntime job.nbits nonce) := by
  have hbranch : (job.merkleBranch.map hexEncodeReversed).mapM unhex =
      some (job.merkleBranch.map fun b => b.bytes.reverse) := by
    induction job.merkleBranch with
    | nil => rfl
    | cons b branch ih => simp [List.mapM_cons, hexEncodeReversed, ih]
  have hprev : unhex (hexEncodePrevhashSv1 job.prevHash) = some (wordSwap job.prevHash.bytes) :=
    unhex_encode _
  have hswap : wordSwap (wordSwap job.prevHash.bytes) = job.prevHash.bytes :=
    wordSwap_wordSwap (by simp)
  rw [minerHeader, readNotify_buildMiningNotify]
  simp only [Option.bind_eq_bind, Option.bind_some, unhex_encode, hbranch, hprev,
    unhex_lowerHex08, hswap, leBytes_beNat_toLeBytes, applyMerkleBranch_eq_foldl, List.foldl_map,
    Bytes32.bytes_reverse]
  rfl

/-! ## When the headers agree -/

/-- Headers that differ only in the merkle root determine it. -/
theorem buildBlockHeader_inj {version : UInt32} {prevHash root root' : Bytes32}
    {ntime nbits nonce : UInt32}
    (h : buildBlockHeader version prevHash root ntime nbits nonce =
      buildBlockHeader version prevHash root' ntime nbits nonce) : root = root' := by
  simp only [buildBlockHeader, List.append_assoc, List.append_cancel_left_eq] at h
  exact Bytes32.ext (List.append_inj h (by simp)).1

/-- A list with an element that is not a fixed point has a last one. -/
theorem exists_last_ne {α : Type*} [DecidableEq α] (f : α → α) {l : List α}
    (h : ¬∀ a ∈ l, f a = a) :
    ∃ pre t post, l = pre ++ t :: post ∧ f t ≠ t ∧ ∀ a ∈ post, f a = a := by
  induction l with
  | nil => simp at h
  | cons a l ih =>
    by_cases hl : ∀ b ∈ l, f b = b
    · refine ⟨[], a, l, rfl, fun ha => h ?_, hl⟩
      simpa [ha] using hl
    · obtain ⟨pre, t, post, rfl, ht, hpost⟩ := ih hl
      exact ⟨a :: pre, t, post, rfl, ht, hpost⟩

/-- Entries that are their own reversals are left as they are. -/
theorem map_reverse_eq_self {l : List Bytes32} (h : ∀ b ∈ l, b.reverse = b) :
    l.map Bytes32.reverse = l :=
  (List.map_congr_left h).trans (List.map_id' l)

/-- A hash on pairs that answers `z₁` to `t` on the right, `z₀` to `t` reversed, and otherwise keeps
what is on the left. -/
def markDirection (t z₀ z₁ a b : Bytes32) : Bytes32 :=
  if b = t then z₁ else if b = t.reverse then z₀ else a

/-- The marks survive the entries behind the last one that is not its own reversal, so the folds
over a branch and over its reversed entries end on different marks. -/
theorem applyMerkleBranch_reverse_ne {t z₀ z₁ : Bytes32} {pre post : List Bytes32}
    (ht : t.reverse ≠ t) (hz : z₀ ≠ z₁) (hpost : ∀ b ∈ post, b.reverse = b) (c : Bytes32) :
    applyMerkleBranch (Bytes32.onPair (markDirection t z₀ z₁)) c
        ((pre ++ t :: post).map Bytes32.reverse) ≠
      applyMerkleBranch (Bytes32.onPair (markDirection t z₀ z₁)) c (pre ++ t :: post) := by
  have hmap : post.map Bytes32.reverse = post := map_reverse_eq_self hpost
  have hkeep (acc : Bytes32) : post.foldl (markDirection t z₀ z₁) acc = acc := by
    induction post generalizing acc with
    | nil => rfl
    | cons b post ih =>
      have hb := hpost b List.mem_cons_self
      have hne : b ≠ t := fun h => ht (h ▸ hb)
      have hne' : b ≠ t.reverse := fun h => hne (by rw [← hb, h, Bytes32.reverse_reverse])
      have hpost' := fun b' hb' => hpost b' (List.mem_cons_of_mem _ hb')
      rw [List.foldl_cons, ih hpost' (map_reverse_eq_self hpost'), markDirection, if_neg hne,
        if_neg hne']
  simp only [applyMerkleBranch_eq_foldl, Bytes32.onPair_append, List.map_append, List.map_cons,
    hmap, List.foldl_append, List.foldl_cons]
  rw [hkeep, hkeep, markDirection, markDirection, if_neg ht, if_pos rfl, if_pos rfl]
  exact hz

/-- A share without version bits is built on the job's version. -/
theorem buildSolvedBlockHeader_of_no_bits (doubleSha256 : Bytes → Bytes32) (job : Job)
    {share : ShareSubmission} (en1 : Bytes)
    (hbits : share.validationContext.bind (·.versionBits) = none) :
    buildSolvedBlockHeader doubleSha256 job share en1 =
      .ok (buildBlockHeader job.version job.prevHash
        (shareMerkleRoot doubleSha256 job share en1) share.ntime job.nbits share.nonce) := by
  have hversion : resolvedVersion job.version share = .ok job.version := by
    rw [resolvedVersion]
    cases hctx : share.validationContext with
    | none => rfl
    | some ctx =>
      rw [hctx, Option.bind_some] at hbits
      simp only [hbits]
  rw [buildSolvedBlockHeader_eq, hversion]
  rfl

/-- For every job and every share on it without version bits, the miner's header is the pool's,
whatever the hash function is, just when every branch entry is its own reversal. -/
theorem minerHeader_eq_solvedHeader_iff (job : Job) (share : ShareSubmission) (en1 : Bytes)
    (hbits : share.validationContext.bind (·.versionBits) = none) :
    (∀ doubleSha256 : Bytes → Bytes32,
      minerHeader doubleSha256 (buildMiningNotify job) en1 share.extraNonce2 share.ntime
          share.nonce = (buildSolvedBlockHeader doubleSha256 job share en1).toOption) ↔
      ∀ b ∈ job.merkleBranch, b.reverse = b := by
  simp only [minerHeader_buildMiningNotify, buildSolvedBlockHeader_of_no_bits _ job en1 hbits,
    shareMerkleRoot, buildCoinbase]
  constructor
  · intro h
    by_contra hne
    obtain ⟨pre, t, post, hbranch, ht, hpost⟩ := exists_last_ne Bytes32.reverse hne
    obtain ⟨z₀, z₁, -, -, hz⟩ := Bytes32.exists_distinct t
    have hroot := buildBlockHeader_inj
      (Option.some.inj (h (Bytes32.onPair (markDirection t z₀ z₁))))
    rw [hbranch] at hroot
    exact applyMerkleBranch_reverse_ne ht hz hpost _ hroot
  · intro h doubleSha256
    rw [map_reverse_eq_self h]
    rfl

/-- For a job without transactions the headers agree. -/
theorem minerHeader_eq_solvedHeader_fixture : ∃ job,
    templateToJob .ofFormat (fixtureTemplate []) fixturePayoutScript = .ok job ∧
    ∀ doubleSha256 : Bytes → Bytes32,
      minerHeader doubleSha256 (buildMiningNotify job) [0, 0, 0, 1] (fixtureShare "100").extraNonce2
          (fixtureShare "100").ntime (fixtureShare "100").nonce =
        (buildSolvedBlockHeader doubleSha256 job (fixtureShare "100") [0, 0, 0, 1]).toOption := by
  have hok : (templateToJob .ofFormat (fixtureTemplate []) fixturePayoutScript).isOk = true := by
    decide +kernel
  obtain ⟨job, hjob⟩ := Except.exists_of_isOk hok
  refine ⟨job, hjob,
    (minerHeader_eq_solvedHeader_iff job (fixtureShare "100") [0, 0, 0, 1] rfl).mpr ?_⟩
  rw [(MappedJob.of_templateToJob hjob).merkleBranch]
  exact fun b hb => absurd hb List.not_mem_nil

/-- With a transaction whose id is not its own reversal the headers differ, for a hash that tells
the two apart. -/
theorem minerHeader_ne_solvedHeader_fixture :
    let id : Bytes32 := ⟨1 :: List.replicate 31 0, by simp⟩
    let doubleSha256 := Bytes32.onPair (markDirection id (Bytes32.fill 0) (Bytes32.fill 1))
    ∃ job, templateToJob .ofFormat (fixtureTemplate [asymmetricTransaction]) fixturePayoutScript =
        .ok job ∧
      minerHeader doubleSha256 (buildMiningNotify job) [0, 0, 0, 1] [0x11, 0x22, 0x33, 0x44]
          0x6553f100 0x12345678 ≠
        (buildSolvedBlockHeader doubleSha256 job (fixtureShare "100") [0, 0, 0, 1]).toOption := by
  intro id doubleSha256
  have hany : (templateToJob .ofFormat (fixtureTemplate [asymmetricTransaction])
      fixturePayoutScript).toOption.any (fun job => decide
        (minerHeader doubleSha256 (buildMiningNotify job) [0, 0, 0, 1] [0x11, 0x22, 0x33, 0x44]
            0x6553f100 0x12345678 ≠
          (buildSolvedBlockHeader doubleSha256 job (fixtureShare "100")
            [0, 0, 0, 1]).toOption)) = true := by
    decide +kernel
  obtain ⟨job, hjob, hne⟩ := Except.exists_of_any hany
  exact ⟨job, hjob, of_decide_eq_true hne⟩

end AzcoinPool
