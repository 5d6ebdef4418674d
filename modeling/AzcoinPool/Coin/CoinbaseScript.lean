import AzcoinPool.Coin.CoinbaseBuilder
import AzcoinPool.Lib.Script
import Mathlib.Data.Nat.Bitwise

/-!
# What the coinbase script says

The script in front of the coinbase read with the push rules of Bitcoin scripts: `encode_script_num`
writes the minimal script number (`encodeScriptNum_eq`), so the script is the push of the height and
the push of the flags, and is read back as such (`pushes_buildCoinbaseScriptSig`). The consensus
rule for the height asks for more: the heights 1 to 16 have opcodes of their own, which the builder
does not use (`pushNum_isPrefix_iff`).
-/

open Endian

namespace AzcoinPool

/-! ## The height -/

theorem toNat_shiftRight_eight (value : UInt64) : (value >>> 8).toNat = value.toNat / 256 := by
  rw [UInt64.toNat_shiftRight, Nat.shiftRight_eq_div_pow]
  rfl

theorem toNat_low_byte (value : UInt64) : (value &&& 0xff).toUInt8.toNat = value.toNat % 256 := by
  rw [UInt64.toNat_toUInt8, UInt64.toNat_and, show (0xff : UInt64).toNat = 2 ^ 8 - 1 from rfl,
    Nat.and_two_pow_sub_one_eq_mod, Nat.mod_mod]

/-- The loop writes the bytes of the value. -/
theorem leNat_scriptNumBytes (value : UInt64) : leNat (scriptNumBytes value) = value.toNat := by
  induction value using scriptNumBytes.induct with
  | case1 => rw [scriptNumBytes, if_pos rfl]; rfl
  | case2 value hne ih =>
    rw [scriptNumBytes, if_neg hne, leNat_cons, ih, toNat_low_byte, toNat_shiftRight_eight]
    exact Nat.mod_add_div _ _

/-- The loop stops at zero, so the last byte it writes is not zero. -/
theorem ne_zero_of_getLast?_scriptNumBytes {value : UInt64} {top : UInt8}
    (h : top ∈ (scriptNumBytes value).getLast?) : top ≠ 0 := by
  induction value using scriptNumBytes.induct with
  | case1 => rw [scriptNumBytes, if_pos rfl] at h; cases h
  | case2 value hne ih =>
    rw [scriptNumBytes, if_neg hne] at h
    cases hrest : (scriptNumBytes (value >>> 8)).getLast? with
    | some last =>
      rw [List.getLast?_cons, hrest] at h
      exact ih (by rw [hrest]; exact h)
    | none =>
      -- the value is the byte it is written as
      rw [List.getLast?_cons, hrest] at h
      obtain rfl : (value &&& 0xff).toUInt8 = top := Option.some.inj h
      have hzero : value.toNat / 256 = 0 := by
        rw [← toNat_shiftRight_eight, ← leNat_scriptNumBytes, List.getLast?_eq_none_iff.mp hrest]
        rfl
      have hpos : value.toNat ≠ 0 := fun h0 => hne (UInt64.toNat_inj.mp h0)
      intro htop
      have := congrArg UInt8.toNat htop
      rw [toNat_low_byte] at this
      change value.toNat % 256 = 0 at this
      omega

/-- `byte & 0x80 != 0` is the test of the top bit. -/
theorem sign_bit_iff (byte : UInt8) : (byte &&& 0x80 != 0) = true ↔ 128 ≤ byte.toNat := by
  have hand : (byte &&& 0x80).toNat = (byte.toNat.testBit 7).toNat * 2 ^ 7 := by
    rw [UInt8.toNat_and, show (0x80 : UInt8).toNat = 2 ^ 7 from rfl, Nat.and_two_pow]
  have hbyte := byte.toNat_lt
  rw [bne_iff_ne, Ne, ← UInt8.toNat_inj, hand, Nat.testBit_eq_decide_div_mod_eq]
  by_cases htop : byte.toNat / 2 ^ 7 % 2 = 1
  · rw [decide_eq_true htop]
    simp
    omega
  · rw [decide_eq_false htop]
    simp
    omega

/-- `encode_script_num` writes the script number of its value, minimally. -/
theorem encodeScriptNum_spec (value : UInt64) :
    Script.MinimalNum (encodeScriptNum value) ∧
      Script.decodeNum (encodeScriptNum value) = (value.toNat : Int) := by
  rw [encodeScriptNum]
  split
  · next hzero => subst hzero; exact ⟨trivial, rfl⟩
  · next hne =>
    have hval := leNat_scriptNumBytes value
    have hlast : ∀ top ∈ (scriptNumBytes value).getLast?, top ≠ 0 :=
      fun top htop => ne_zero_of_getLast?_scriptNumBytes htop
    cases hbytes : scriptNumBytes value using List.reverseRecOn with
    | nil =>
      rw [hbytes] at hval
      exact absurd (UInt64.toNat_inj.mp hval.symm) hne
    | append_singleton init top =>
      rw [hbytes] at hval hlast
      simp only [List.getLast?_concat, Option.any_some, sign_bit_iff]
      split
      · next hsign =>
        -- the sign byte makes room for the top bit
        rw [Script.minimalNum_concat_iff, Script.decodeNum_concat]
        refine ⟨.inr ⟨top, by simp, hsign⟩, ?_⟩
        simp [hval]
      · next hsign =>
        have htop : top.toNat ≠ 0 := fun h0 =>
          hlast top (by simp) (UInt8.toNat_inj.mp h0)
        rw [Script.minimalNum_concat_iff, Script.decodeNum_concat, if_pos (by omega)]
        refine ⟨.inl (by omega), ?_⟩
        rw [← hval, leNat_append]
        simp

theorem encodeScriptNum_eq (value : UInt64) :
    encodeScriptNum value = Script.encodeNum value.toNat :=
  Script.eq_encodeNum (encodeScriptNum_spec value).1 (encodeScriptNum_spec value).2

/-! ## The pushes -/

theorem pushData_eq_push (buf data : Bytes) : pushData buf data = buf ++ Script.push data := by
  rw [pushData_eq, List.append_assoc]
  rfl

/-- The script is the push of the height, and the push of the flags when there are any. -/
theorem buildCoinbaseScriptSig_eq_flatMap (height : UInt64) (flags : Option Bytes) :
    buildCoinbaseScriptSig height flags =
      (encodeScriptNum height :: (flags.filter (· ≠ [])).toList).flatMap Script.push := by
  cases flags with
  | none => simp [buildCoinbaseScriptSig, pushData_eq_push]
  | some flags =>
    by_cases h : flags = [] <;>
      simp [buildCoinbaseScriptSig, pushData_eq_push, h, Option.filter_some]

/-- Read as pushes, the script gives the height and the flags, and nothing is left of it. -/
theorem pushes_buildCoinbaseScriptSig (height : UInt64) {flags : Bytes}
    (h : flags.length < 2 ^ 32) :
    ∃ number, Script.pushes (buildCoinbaseScriptSig height (some flags)) =
        some (if flags = [] then [number] else [number, flags]) ∧
      Script.MinimalNum number ∧ Script.decodeNum number = (height.toNat : Int) := by
  refine ⟨encodeScriptNum height, ?_, encodeScriptNum_spec height⟩
  have hitems : ∀ data ∈ encodeScriptNum height :: ((some flags).filter (· ≠ [])).toList,
      data.length < 2 ^ 32 := by
    intro data hdata
    rcases List.mem_cons.mp hdata with rfl | hdata
    · exact Nat.lt_of_le_of_lt (length_encodeScriptNum_le height) (by decide)
    · obtain ⟨rfl, -⟩ : flags = data ∧ _ := by simpa using hdata
      exact h
  rw [buildCoinbaseScriptSig_eq_flatMap, Script.pushes_flatMap hitems]
  by_cases hflags : flags = [] <;> simp [hflags]

/-- A height whose top bit needs a byte of its own, and flags behind the first opcode with a length
byte. -/
theorem pushes_buildCoinbaseScriptSig_wide :
    ∃ number, Script.pushes (buildCoinbaseScriptSig 200 (some (List.replicate 76 0x2f))) =
        some (if List.replicate 76 (0x2f : UInt8) = [] then [number]
          else [number, List.replicate 76 0x2f]) ∧
      Script.MinimalNum number ∧ Script.decodeNum number = ((200 : UInt64).toNat : Int) :=
  pushes_buildCoinbaseScriptSig 200 (by decide)

/-! ## The height commitment -/

theorem push_encodeScriptNum_isPrefix (height : UInt64) (flags : Option Bytes) :
    Script.push (encodeScriptNum height) <+: buildCoinbaseScriptSig height flags := by
  rw [buildCoinbaseScriptSig_eq_flatMap, List.flatMap_cons]
  exact List.prefix_append _ _

/-- The script starts with the height as consensus writes it, but for the heights 1 to 16: these
have opcodes of their own, and the builder pushes a byte. -/
theorem pushNum_isPrefix_iff (height : UInt64) (flags : Option Bytes) :
    Script.pushNum height.toNat <+: buildCoinbaseScriptSig height flags ↔
      height = 0 ∨ 17 ≤ height := by
  have hscript := push_encodeScriptNum_isPrefix height flags
  have hlen := length_encodeScriptNum_le height
  rw [Script.pushNum]
  split
  · next hzero =>
    obtain rfl : height = 0 := UInt64.toNat_inj.mp hzero
    exact iff_of_true hscript (.inl rfl)
  split
  · next hpos hle =>
    have hsmall : ¬(height = 0 ∨ 17 ≤ height) := by
      rintro (rfl | h)
      · exact hpos rfl
      · exact absurd (UInt64.le_iff_toNat_le.mp h) (Nat.not_le_of_lt (Nat.lt_succ_of_le hle))
    refine iff_of_false (fun hop => ?_) hsmall
    -- the first byte is an opcode and a length
    rw [Script.push_of_le (by omega)] at hscript
    obtain ⟨_, h₁⟩ := hop
    obtain ⟨_, h₂⟩ := hscript
    have hfirst := (List.cons.inj (h₁.trans h₂.symm)).1
    have hval := congrArg UInt8.toNat hfirst
    rw [UInt8.toNat_ofNat', UInt8.toNat_ofNat'] at hval
    omega
  · next hpos hle =>
    rw [← encodeScriptNum_eq]
    refine iff_of_true hscript (.inr (UInt64.le_iff_toNat_le.mpr ?_))
    exact Nat.lt_of_not_le hle

/-- The first block has its height pushed as a byte. -/
theorem not_pushNum_isPrefix_one :
    buildCoinbaseScriptSig 1 none = [0x01, 0x01] ∧ Script.pushNum (1 : UInt64).toNat = [0x51] ∧
      ¬ Script.pushNum (1 : UInt64).toNat <+: buildCoinbaseScriptSig 1 none := by
  decide +kernel

end AzcoinPool
