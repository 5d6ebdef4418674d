import AzcoinPool.Coin.ShareValidator

/-!
# The division of a target

`div_target_by_difficulty` is a base-256 long division on 64-bit words. The remainder it carries
into an iteration is that of the bytes read so far (`toNat_remainderAfter`), hence below the
divisor, and so neither the shift nor the cast of a digit loses a bit in any iteration
(`divTargetByDifficulty_iterations`).
-/

open Endian

namespace AzcoinPool

/-! ## The remainder an iteration starts with -/

/-- The remainder the loop carries once it has read some bytes. -/
def remainderAfter (divisor remainder : UInt64) : Bytes → UInt64
  | [] => remainder
  | byte :: bytes =>
    remainderAfter divisor ((remainder <<< 8 ||| byte.toUInt64) % divisor) bytes

/-- The loop goes on with the remainder of the bytes read. -/
theorem divTargetLoop_append (divisor remainder : UInt64) (pre post : Bytes) :
    divTargetLoop divisor remainder (pre ++ post) = divTargetLoop divisor remainder pre ++
      divTargetLoop divisor (remainderAfter divisor remainder pre) post := by
  induction pre generalizing remainder with
  | nil => rfl
  | cons byte pre ih => simp only [List.cons_append, divTargetLoop, remainderAfter, ih]

/-- The remainder carried is that of the number read so far. -/
theorem toNat_remainderAfter {divisor remainder : UInt64} (hd : divisor.toNat < 2 ^ 32)
    (hr : remainder.toNat < divisor.toNat) (pre : Bytes) :
    (remainderAfter divisor remainder pre).toNat =
      (remainder.toNat * 256 ^ pre.length + beNat pre) % divisor.toNat := by
  induction pre generalizing remainder with
  | nil => simp [remainderAfter, Nat.mod_eq_of_lt hr]
  | cons byte pre ih =>
    set value := remainder.toNat * 256 + byte.toNat with hvalue
    have hstep : ((remainder <<< 8 ||| byte.toUInt64) % divisor).toNat = value % divisor.toNat := by
      rw [UInt64.toNat_mod, toNat_shift_or (Nat.lt_trans hr hd)]
    have hlt : value % divisor.toNat < divisor.toNat := Nat.mod_lt _ (by omega)
    calc (remainderAfter divisor remainder (byte :: pre)).toNat
        = (value % divisor.toNat * 256 ^ pre.length + beNat pre) % divisor.toNat := by
          rw [remainderAfter, ih (hstep ▸ hlt), hstep]
      _ = (value * 256 ^ pre.length + beNat pre) % divisor.toNat :=
          ((Nat.mod_modEq value divisor.toNat).mul_right _).add_right _
      _ = _ := by
          rw [hvalue, beNat_cons, List.length_cons, Nat.pow_succ]
          ring_nf

/-! ## One iteration -/

/-- What an iteration of the loop does without loss: the remainder is below the divisor, the value
fits in 64 bits and is not cut by the shift, and the digit written is the whole quotient. -/
structure ExactIteration (divisor remainder : UInt64) (byte digit : UInt8) : Prop where
  remainder_lt : remainder < divisor
  value_lt : remainder.toNat * 256 + byte.toNat < 2 ^ 64
  value_eq : (remainder <<< 8 ||| byte.toUInt64).toNat = remainder.toNat * 256 + byte.toNat
  quotient_lt : (remainder <<< 8 ||| byte.toUInt64) / divisor < 256
  digit_eq : digit.toUInt64 = (remainder <<< 8 ||| byte.toUInt64) / divisor

theorem exactIteration {divisor remainder : UInt64} (hd : divisor.toNat < 2 ^ 32)
    (hr : remainder.toNat < divisor.toNat) (byte : UInt8) :
    ExactIteration divisor remainder byte
      ((remainder <<< 8 ||| byte.toUInt64) / divisor).toUInt8 := by
  have hvalue := toNat_shift_or (Nat.lt_trans hr hd) byte
  have hquotient : ((remainder <<< 8 ||| byte.toUInt64) / divisor).toNat < 256 := by
    rw [UInt64.toNat_div, hvalue]
    exact longDiv_digit_lt hr byte
  refine ⟨hr, ?_, hvalue, hquotient, ?_⟩
  · rw [← hvalue]
    exact UInt64.toNat_lt _
  · rw [← UInt64.toNat_inj, UInt8.toNat_toUInt64, UInt64.toNat_toUInt8, Nat.mod_eq_of_lt hquotient]

/-! ## The division -/

/-- What stands in the output when the loop comes to a byte: the digits written so far and the
remainder make up the number read so far. -/
theorem beNat_eq_of_prefix {divisor : UInt64} (hd : divisor.toNat < 2 ^ 32)
    (hpos : (0 : UInt64).toNat < divisor.toNat) (pre : Bytes) :
    beNat pre = beNat (divTargetLoop divisor 0 pre) * divisor.toNat +
      (remainderAfter divisor 0 pre).toNat := by
  rw [divTargetLoop_eq_longDiv hd hpos, beNat_longDiv hpos, toNat_remainderAfter hd hpos,
    UInt64.toNat_zero, Nat.zero_mul, Nat.zero_add, Nat.div_add_mod']

/-- The division gives the quotient, and every iteration of its loop is exact: at each byte of the
target, the digits so far and the remainder make up the bytes read, and the digit written is the
whole quotient. -/
theorem divTargetByDifficulty_iterations (target : Bytes32) (difficulty : UInt32) :
    beNat (divTargetByDifficulty target difficulty).bytes =
        beNat target.bytes / max difficulty.toNat 1 ∧
      (1 < difficulty → ∀ pre byte post, target.bytes = pre ++ byte :: post →
        ∃ digit, (divTargetByDifficulty target difficulty).bytes[pre.length]? = some digit ∧
          ExactIteration difficulty.toUInt64 (remainderAfter difficulty.toUInt64 0 pre) byte
            digit ∧
          beNat pre =
            beNat ((divTargetByDifficulty target difficulty).bytes.take pre.length) *
              difficulty.toNat + (remainderAfter difficulty.toUInt64 0 pre).toNat) := by
  refine ⟨beNat_divTargetByDifficulty target difficulty, ?_⟩
  intro hdifficulty pre byte post htarget
  have hone : 1 < difficulty.toNat := hdifficulty
  have hd : difficulty.toUInt64.toNat < 2 ^ 32 := by
    rw [UInt32.toNat_toUInt64]
    exact difficulty.toNat_lt
  have hpos : (0 : UInt64).toNat < difficulty.toUInt64.toNat := by
    rw [UInt32.toNat_toUInt64, UInt64.toNat_zero]
    omega
  have hremainder : (remainderAfter difficulty.toUInt64 0 pre).toNat <
      difficulty.toUInt64.toNat := by
    rw [toNat_remainderAfter hd hpos]
    exact Nat.mod_lt _ hpos
  have hbytes : (divTargetByDifficulty target difficulty).bytes =
      divTargetLoop difficulty.toUInt64 0 (pre ++ byte :: post) := by
    rw [← htarget, divTargetByDifficulty, if_neg (UInt32.not_le.mpr hdifficulty)]
  have hlen := length_divTargetLoop difficulty.toUInt64 0 pre
  rw [hbytes, divTargetLoop_append]
  refine ⟨_, ?_, exactIteration hd hremainder byte, ?_⟩
  · rw [List.getElem?_append_right (Nat.le_of_eq hlen), hlen, Nat.sub_self]
    rfl
  · rw [List.take_left' hlen, ← UInt32.toNat_toUInt64]
    exact beNat_eq_of_prefix hd hpos pre

/-- The last byte of the largest target, at the largest difficulty. -/
theorem divTargetByDifficulty_iterations_largest :
    ∃ digit, (divTargetByDifficulty (Bytes32.fill 0xff) 0xffffffff).bytes[31]? = some digit ∧
      ExactIteration 0xffffffff (remainderAfter 0xffffffff 0 (List.replicate 31 0xff)) 0xff
        digit := by
  obtain ⟨digit, hget, hexact, -⟩ := (divTargetByDifficulty_iterations (Bytes32.fill 0xff)
    0xffffffff).2 (by decide) (List.replicate 31 0xff) 0xff [] (by decide)
  exact ⟨digit, hget, hexact⟩

end AzcoinPool
