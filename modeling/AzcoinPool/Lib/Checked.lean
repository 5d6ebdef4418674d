import AzcoinPool.Lib.RustStd

/-!
# Checked arithmetic

The operations of Rust that panic: arithmetic on `usize` and `u64` in a build with overflow checks,
indexing of an array, copying into a part of one, and allocation. `none` is the panic. A `usize` is
a natural number below `2^64`. Each operation comes with the condition under which it returns.
-/

namespace Checked

/-! ## Arithmetic -/

def usizeAdd (a b : Nat) : Option Nat := if a + b < 2 ^ 64 then some (a + b) else none

def usizeSub (a b : Nat) : Option Nat := if b ≤ a then some (a - b) else none

def usizeMul (a b : Nat) : Option Nat := if a * b < 2 ^ 64 then some (a * b) else none

/-- `<<` on a `u64`: the amount has to be below the width. -/
def u64Shl (a : UInt64) (bits : Nat) : Option UInt64 :=
  if bits < 64 then some (a <<< UInt64.ofNat bits) else none

def u64Div (a b : UInt64) : Option UInt64 := if b = 0 then none else some (a / b)

def u64Rem (a b : UInt64) : Option UInt64 := if b = 0 then none else some (a % b)

theorem usizeAdd_of_lt {a b : Nat} (h : a + b < 2 ^ 64) : usizeAdd a b = some (a + b) := if_pos h

theorem usizeSub_of_le {a b : Nat} (h : b ≤ a) : usizeSub a b = some (a - b) := if_pos h

theorem usizeSub_of_lt {a b : Nat} (h : a < b) : usizeSub a b = none := if_neg (Nat.not_le_of_lt h)

theorem usizeMul_of_lt {a b : Nat} (h : a * b < 2 ^ 64) : usizeMul a b = some (a * b) := if_pos h

theorem u64Shl_of_lt {a : UInt64} {bits : Nat} (h : bits < 64) :
    u64Shl a bits = some (a <<< UInt64.ofNat bits) := if_pos h

theorem u64Div_of_ne {a b : UInt64} (h : b ≠ 0) : u64Div a b = some (a / b) := if_neg h

theorem u64Rem_of_ne {a b : UInt64} (h : b ≠ 0) : u64Rem a b = some (a % b) := if_neg h

/-! ## Arrays -/

/-- `a[i] = b` on an array of 32 bytes. -/
def setByte (a : Bytes32) (i : Nat) (b : UInt8) : Option Bytes32 :=
  if i < 32 then some (a.set i b) else none

/-- `data[lo..hi].copy_from_slice(src)`: the range has to be one of the array and of the source's
length. -/
def copyInto (data : Bytes) (lo hi : Nat) (src : Bytes) : Option Bytes :=
  if lo ≤ hi ∧ hi ≤ data.length ∧ src.length = hi - lo then
    some (data.take lo ++ src ++ data.drop hi)
  else none

/-- `Vec::with_capacity` of bytes. -/
def withCapacity (n : Nat) : Option Unit := if n ≤ isizeMax then some () else none

theorem setByte_of_lt {a : Bytes32} {i : Nat} {b : UInt8} (h : i < 32) :
    setByte a i b = some (a.set i b) := if_pos h

/-- Two arrays of 32 bytes fill one of 64. -/
theorem copyInto_halves (data : Bytes) (hdata : data.length = 64) (a b : Bytes32) :
    ((copyInto data 0 32 a.bytes).bind fun data => copyInto data 32 64 b.bytes) =
      some (a.bytes ++ b.bytes) := by
  have hfirst : copyInto data 0 32 a.bytes = some (a.bytes ++ data.drop 32) := by
    rw [copyInto, if_pos ⟨by decide, by omega, by simp⟩, List.take_zero, List.nil_append]
  have hlen : (a.bytes ++ data.drop 32).length = 64 := by simp [hdata]
  rw [hfirst, Option.bind_some, copyInto, if_pos ⟨by decide, by omega, by simp⟩,
    List.take_left' a.length_bytes, List.drop_of_length_le (by omega), List.append_nil]

end Checked
