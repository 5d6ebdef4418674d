import AzcoinPool.Coin.ShareValidator

/-!
# The value of a compact target

`nbits_to_target` is documented as `mantissa * 256^(exponent - 3)`. What its 32 bytes say is read
off the two branches: for an exponent from 3 to 32 the documented value, below 3 the mantissa
shifted up instead of down and cut to 32 bits, and above 32 nothing. So the target has the
documented value, where that fits, just on the inputs of `nbitsToTarget_exact_iff`.
-/

open Endian

namespace AzcoinPool

/-! ## Writing bytes of an array -/

@[simp] theorem beNat_fill_zero : beNat (Bytes32.fill 0).bytes = 0 := by decide +kernel

theorem beNat_bytes32_set {t : Bytes32} {i : Nat} (h : t.bytes[i]? = some 0) (b : UInt8) :
    beNat (t.set i b).bytes = beNat t.bytes + b.toNat * 256 ^ (31 - i) := by
  have hset := beNat_set h b
  rwa [t.length_bytes] at hset

/-- Three bytes written one behind the other. -/
theorem beNat_set_three {i : Nat} (h : i + 2 < 32) (a b c : UInt8) :
    beNat ((((Bytes32.fill 0).set i a).set (i + 1) b).set (i + 2) c).bytes =
      (a.toNat * 256 ^ 2 + b.toNat * 256 + c.toNat) * 256 ^ (29 - i) := by
  have h0 := Bytes32.getElem?_fill (i := i) (by omega) 0
  have h1 : ((Bytes32.fill 0).set i a).bytes[i + 1]? = some 0 := by
    rw [Bytes32.getElem?_set_ne (by omega), Bytes32.getElem?_fill (by omega)]
  have h2 : (((Bytes32.fill 0).set i a).set (i + 1) b).bytes[i + 2]? = some 0 := by
    rw [Bytes32.getElem?_set_ne (by omega), Bytes32.getElem?_set_ne (by omega),
      Bytes32.getElem?_fill (by omega)]
  rw [beNat_bytes32_set h2, beNat_bytes32_set h1, beNat_bytes32_set h0, beNat_fill_zero,
    show 31 - i = 29 - i + 2 by omega, show 31 - (i + 1) = 29 - i + 1 by omega,
    show 31 - (i + 2) = 29 - i by omega, Nat.pow_add, Nat.pow_succ]
  ring

/-! ## The two branches -/

/-- The first byte of the compact form. -/
def compactExponent (nbits : UInt32) : Nat := nbits.toNat / 2 ^ 24

/-- The other three. -/
def compactMantissa (nbits : UInt32) : Nat := nbits.toNat % 2 ^ 24

theorem toNat_exponent (nbits : UInt32) :
    (nbits >>> 24).toUInt64.toNat = compactExponent nbits := by
  rw [UInt32.toNat_toUInt64, UInt32.toNat_shiftRight, compactExponent]
  exact Nat.shiftRight_eq_div_pow _ _

theorem toNat_mantissa (nbits : UInt32) : (nbits &&& 0xffffff).toNat = compactMantissa nbits := by
  rw [UInt32.toNat_and, compactMantissa]
  exact Nat.and_two_pow_sub_one_eq_mod _ 24

theorem compactMantissa_lt (nbits : UInt32) : compactMantissa nbits < 2 ^ 24 :=
  Nat.mod_lt _ (by decide)

theorem compactExponent_lt (nbits : UInt32) : compactExponent nbits < 256 := by
  have := nbits.toNat_lt
  rw [compactExponent]
  omega

/-- Four bytes written at the end are the 32 low bits of what they are taken from. -/
theorem beNat_set_low (v : UInt64) :
    beNat (((((Bytes32.fill 0).set 28 (v >>> 24).toUInt8).set 29 (v >>> 16).toUInt8).set 30
      (v >>> 8).toUInt8).set 31 v.toUInt8).bytes = v.toNat % 2 ^ 32 := by
  have h28 : ∀ a, beNat ((Bytes32.fill 0).set 28 a).bytes = a.toNat * 256 ^ 3 := by
    intro a
    rw [beNat_bytes32_set (Bytes32.getElem?_fill (by decide) 0), beNat_fill_zero, Nat.zero_add]
  have h29 (a : UInt8) : ((Bytes32.fill 0).set 28 a).bytes[29]? = some 0 := by
    rw [Bytes32.getElem?_set_ne (by decide), Bytes32.getElem?_fill (by decide)]
  have h30 (a b : UInt8) : (((Bytes32.fill 0).set 28 a).set 29 b).bytes[30]? = some 0 := by
    rw [Bytes32.getElem?_set_ne (by decide), Bytes32.getElem?_set_ne (by decide),
      Bytes32.getElem?_fill (by decide)]
  have h31 (a b c : UInt8) :
      ((((Bytes32.fill 0).set 28 a).set 29 b).set 30 c).bytes[31]? = some 0 := by
    rw [Bytes32.getElem?_set_ne (by decide), Bytes32.getElem?_set_ne (by decide),
      Bytes32.getElem?_set_ne (by decide), Bytes32.getElem?_fill (by decide)]
  have hbyte (s : UInt64) (hs : s.toNat < 64) :
      (v >>> s).toUInt8.toNat = v.toNat / 2 ^ s.toNat % 256 := by
    rw [UInt64.toNat_toUInt8, UInt64.toNat_shiftRight, Nat.mod_eq_of_lt hs,
      Nat.shiftRight_eq_div_pow]
  rw [beNat_bytes32_set (h31 _ _ _), beNat_bytes32_set (h30 _ _), beNat_bytes32_set (h29 _), h28,
    hbyte 24 (by decide), hbyte 16 (by decide), hbyte 8 (by decide), UInt64.toNat_toUInt8]
  change _ / 2 ^ 24 % 256 * 256 ^ 3 + _ / 2 ^ 16 % 256 * 256 ^ 2 + _ / 2 ^ 8 % 256 * 256 ^ 1 +
    _ % 256 * 256 ^ 0 = _
  omega

/-- Up to an exponent of 3 the mantissa is shifted up, and the 32 low bits are written. -/
theorem nbitsToTarget_low {nbits : UInt32} (h : compactExponent nbits ≤ 3) :
    let v := (nbits &&& 0xffffff).toUInt64 <<< UInt64.ofNat (8 * (3 - compactExponent nbits))
    nbitsToTarget nbits =
      ((((Bytes32.fill 0).set 28 (v >>> 24).toUInt8).set 29 (v >>> 16).toUInt8).set 30
        (v >>> 8).toUInt8).set 31 v.toUInt8 := by
  have hexp := toNat_exponent nbits
  have hle : (nbits >>> 24).toUInt64 ≤ 3 := by
    rw [UInt64.le_iff_toNat_le, hexp]
    exact h
  have hshift : UInt64.ofNat (8 * (3 - compactExponent nbits)) =
      (8 : UInt64) * ((3 : UInt64) - (nbits >>> 24).toUInt64) := by
    rw [← UInt64.toNat_inj, UInt64.toNat_mul, UInt64.toNat_sub_of_le _ _ hle, hexp]
    exact UInt64.toNat_ofNat'
  rw [hshift, nbitsToTarget]
  exact if_pos hle

theorem beNat_nbitsToTarget_low {nbits : UInt32} (h : compactExponent nbits ≤ 3) :
    beNat (nbitsToTarget nbits).bytes =
      compactMantissa nbits * 256 ^ (3 - compactExponent nbits) % 2 ^ 32 := by
  have hshift : (UInt64.ofNat (8 * (3 - compactExponent nbits))).toNat =
      8 * (3 - compactExponent nbits) := UInt64.toNat_ofNat_of_lt' (by
    change 8 * (3 - compactExponent nbits) < 2 ^ 64
    omega)
  rw [nbitsToTarget_low h, beNat_set_low, UInt64.toNat_shiftLeft, UInt32.toNat_toUInt64,
    toNat_mantissa, hshift, Nat.mod_eq_of_lt (show 8 * (3 - compactExponent nbits) < 64 by omega),
    Nat.shiftLeft_eq, Nat.pow_mul]
  exact Nat.mod_mod_of_dvd _ (by decide)

/-- `32 - shift - 3`, which wraps for an exponent above 32. -/
theorem toNat_byteOffset {nbits : UInt32} (h3 : 3 < compactExponent nbits) :
    ((32 : UInt64) - ((nbits >>> 24).toUInt64 - 3) - 3).toNat =
      if compactExponent nbits ≤ 32 then 32 - compactExponent nbits
      else 2 ^ 64 + 32 - compactExponent nbits := by
  have hlt := compactExponent_lt nbits
  rw [UInt64.toNat_sub, UInt64.toNat_sub, UInt64.toNat_sub, toNat_exponent]
  change (2 ^ 64 - 3 + (2 ^ 64 - (2 ^ 64 - 3 + compactExponent nbits) % 2 ^ 64 + 32) % 2 ^ 64) %
    2 ^ 64 = _
  split <;> omega

/-- The three bytes of the mantissa. -/
theorem mantissa_bytes (nbits : UInt32) :
    let mantissa := nbits &&& 0xffffff
    (mantissa >>> 16).toUInt8.toNat * 256 ^ 2 + (mantissa >>> 8).toUInt8.toNat * 256 +
      mantissa.toUInt8.toNat = compactMantissa nbits := by
  intro mantissa
  have hbyte (s : UInt32) (hs : s.toNat < 32) :
      (mantissa >>> s).toUInt8.toNat = compactMantissa nbits / 2 ^ s.toNat % 256 := by
    rw [UInt32.toNat_toUInt8, UInt32.toNat_shiftRight, Nat.mod_eq_of_lt hs, toNat_mantissa,
      Nat.shiftRight_eq_div_pow]
  have hlt := compactMantissa_lt nbits
  rw [hbyte 16 (by decide), hbyte 8 (by decide), UInt32.toNat_toUInt8, toNat_mantissa]
  change _ / 2 ^ 16 % 256 * 256 ^ 2 + _ / 2 ^ 8 % 256 * 256 + _ = _
  omega

/-- From 4 to 32 the mantissa's bytes are written at the place of the exponent. -/
theorem nbitsToTarget_mid {nbits : UInt32} (h3 : 3 < compactExponent nbits)
    (h32 : compactExponent nbits ≤ 32) :
    let mantissa := nbits &&& 0xffffff
    nbitsToTarget nbits =
      (((Bytes32.fill 0).set (32 - compactExponent nbits) (mantissa >>> 16).toUInt8).set
        (32 - compactExponent nbits + 1) (mantissa >>> 8).toUInt8).set
        (32 - compactExponent nbits + 2) mantissa.toUInt8 := by
  intro mantissa
  have hlow : ¬(nbits >>> 24).toUInt64 ≤ 3 := by
    rw [UInt64.le_iff_toNat_le, toNat_exponent]
    exact Nat.not_le_of_lt h3
  have hoffset := toNat_byteOffset h3
  rw [if_pos h32] at hoffset
  rw [nbitsToTarget]
  dsimp only
  rw [if_neg hlow]
  generalize (32 : UInt64) - ((nbits >>> 24).toUInt64 - 3) - 3 = byteOffset at hoffset ⊢
  have hadd (k : UInt64) (hk : k.toNat ≤ 2) :
      (byteOffset + k).toNat = 32 - compactExponent nbits + k.toNat := by
    rw [UInt64.toNat_add, hoffset]
    omega
  have hguard (k : UInt64) (hk : k.toNat ≤ 2) : byteOffset + k < 32 := by
    rw [UInt64.lt_iff_toNat_lt, hadd k hk]
    change _ < 32
    omega
  have hguard0 : byteOffset < 32 := by
    rw [UInt64.lt_iff_toNat_lt, hoffset]
    change _ < 32
    omega
  rw [if_pos hguard0, if_pos (hguard 1 (by decide)), if_pos (hguard 2 (by decide)),
    hadd 1 (by decide), hadd 2 (by decide), hoffset]
  rfl

theorem beNat_nbitsToTarget_mid {nbits : UInt32} (h3 : 3 < compactExponent nbits)
    (h32 : compactExponent nbits ≤ 32) :
    beNat (nbitsToTarget nbits).bytes =
      compactMantissa nbits * 256 ^ (compactExponent nbits - 3) := by
  rw [nbitsToTarget_mid h3 h32, beNat_set_three (by omega), mantissa_bytes,
    show 29 - (32 - compactExponent nbits) = compactExponent nbits - 3 by omega]

/-- Above 32 nothing is written. -/
theorem nbitsToTarget_high {nbits : UInt32} (h32 : 32 < compactExponent nbits) :
    nbitsToTarget nbits = Bytes32.fill 0 := by
  have hlt := compactExponent_lt nbits
  have hlow : ¬(nbits >>> 24).toUInt64 ≤ 3 := by
    rw [UInt64.le_iff_toNat_le, toNat_exponent]
    change ¬compactExponent nbits ≤ 3
    omega
  have hoffset := @toNat_byteOffset nbits (by omega)
  rw [if_neg (by omega)] at hoffset
  have hguard : ¬(32 : UInt64) - ((nbits >>> 24).toUInt64 - 3) - 3 < 32 := by
    rw [UInt64.lt_iff_toNat_lt, hoffset]
    change ¬_ < 32
    omega
  rw [nbitsToTarget]
  dsimp only
  rw [if_neg hlow, if_neg hguard]

/-! ## The documented value -/

/-- `mantissa * 256^(exponent - 3)`, rounded down. -/
def compactValue (nbits : UInt32) : Nat :=
  compactMantissa nbits * 256 ^ compactExponent nbits / 256 ^ 3

theorem compactValue_of_le {nbits : UInt32} (h : 3 ≤ compactExponent nbits) :
    compactValue nbits = compactMantissa nbits * 256 ^ (compactExponent nbits - 3) := by
  obtain ⟨k, hk⟩ := Nat.exists_eq_add_of_le' h
  rw [compactValue, hk, Nat.add_sub_cancel, Nat.pow_add, ← Nat.mul_assoc,
    Nat.mul_div_cancel _ (by decide)]

/-- The target has the documented value just if the exponent is from 3 to 32, or the mantissa is
zero, or the exponent is zero and the low byte of the mantissa is. -/
theorem beNat_nbitsToTarget_eq_iff (nbits : UInt32) :
    beNat (nbitsToTarget nbits).bytes = compactValue nbits ↔
      (3 ≤ compactExponent nbits ∧ compactExponent nbits ≤ 32) ∨ compactMantissa nbits = 0 ∨
      (compactExponent nbits = 0 ∧ compactMantissa nbits % 256 = 0) := by
  have hm := compactMantissa_lt nbits
  by_cases hlow : compactExponent nbits ≤ 3
  · rw [beNat_nbitsToTarget_low hlow, compactValue]
    generalize compactMantissa nbits = m at hm ⊢
    obtain h | h | h | h : compactExponent nbits = 0 ∨ compactExponent nbits = 1 ∨
        compactExponent nbits = 2 ∨ compactExponent nbits = 3 := by omega
    · rw [h]
      change m * 2 ^ 24 % (2 ^ 8 * 2 ^ 24) = m * 1 / 2 ^ 24 ↔ _
      rw [Nat.mul_mod_mul_right, Nat.mul_one, Nat.div_eq_of_lt hm]
      omega
    · rw [h]
      change m * 2 ^ 16 % (2 ^ 16 * 2 ^ 16) = m * 2 ^ 8 / (2 ^ 16 * 2 ^ 8) ↔ _
      rw [Nat.mul_mod_mul_right, Nat.mul_div_mul_right _ _ (by decide)]
      omega
    · rw [h]
      change m * 2 ^ 8 % 2 ^ 32 = m * 2 ^ 16 / (2 ^ 8 * 2 ^ 16) ↔ _
      rw [Nat.mod_eq_of_lt (by omega), Nat.mul_div_mul_right _ _ (by decide)]
      omega
    · rw [h]
      change m * 1 % 2 ^ 32 = m * 2 ^ 24 / 2 ^ 24 ↔ _
      rw [Nat.mod_eq_of_lt (by omega), Nat.mul_one, Nat.mul_div_cancel _ (by decide)]
      omega
  · by_cases hhigh : compactExponent nbits ≤ 32
    · rw [beNat_nbitsToTarget_mid (by omega) hhigh, compactValue_of_le (by omega)]
      simp only [true_iff]
      omega
    · rw [nbitsToTarget_high (by omega), beNat_fill_zero, compactValue_of_le (by omega)]
      have hpow : 256 ^ (compactExponent nbits - 3) ≠ 0 := (Nat.pow_pos (by decide)).ne'
      rw [eq_comm, Nat.mul_eq_zero, or_iff_left hpow]
      omega

example : beNat (nbitsToTarget 0x1d00ffff).bytes = 0xffff * 256 ^ 26 := by decide +kernel

/-- Where the documented value fits into 32 bytes, the target has it on just these inputs. -/
theorem nbitsToTarget_exact_iff (nbits : UInt32) :
    (compactValue nbits < 2 ^ 256 → beNat (nbitsToTarget nbits).bytes = compactValue nbits) ↔
      2 ^ 256 ≤ compactValue nbits ∨
      (3 ≤ compactExponent nbits ∧ compactExponent nbits ≤ 32) ∨ compactMantissa nbits = 0 ∨
      (compactExponent nbits = 0 ∧ compactMantissa nbits % 256 = 0) := by
  rw [beNat_nbitsToTarget_eq_iff, imp_iff_not_or, Nat.not_lt]

/-- An exponent of 2 with mantissa `0x000100` means 1, and the target is `0x10000`. -/
theorem beNat_nbitsToTarget_ne : ¬∀ nbits : UInt32, compactValue nbits < 2 ^ 256 →
    beNat (nbitsToTarget nbits).bytes = compactValue nbits := by
  intro h
  have hvalue := h 0x02000100 (by decide)
  rw [beNat_nbitsToTarget_low (by decide)] at hvalue
  exact absurd hvalue (by decide)

end AzcoinPool
