import Mathlib.Data.Nat.Digits.Lemmas
import Mathlib.Data.List.Basic
import Mathlib.Tactic.Ring
import Mathlib.Tactic.Set

/-!
# Byte strings as numbers

Little- and big-endian readings of a byte string, the fixed-width little-endian writer, and the
facts later modules use: writing and reading are inverse, a reading is below the power of 256 its
length gives, bytewise comparison of two strings of one length is comparison of their big-endian
values, and base-256 long division writes the digits of the quotient.
-/

namespace Endian

/-- The number whose little-endian bytes are `bs`. -/
def leNat (bs : List UInt8) : Nat := Nat.ofDigits 256 (bs.map UInt8.toNat)

/-- The number whose big-endian bytes are `bs`. -/
def beNat (bs : List UInt8) : Nat := leNat bs.reverse

/-- The `k` low bytes of `n`, least significant first. -/
def leBytes : Nat → Nat → List UInt8
  | 0, _ => []
  | k + 1, n => UInt8.ofNat n :: leBytes k (n / 256)

/-! ## Reading -/

@[simp] theorem leNat_nil : leNat [] = 0 := rfl

@[simp] theorem leNat_cons (b : UInt8) (bs : List UInt8) :
    leNat (b :: bs) = b.toNat + 256 * leNat bs := by
  simp [leNat, Nat.ofDigits_cons]

theorem leNat_append (as bs : List UInt8) :
    leNat (as ++ bs) = leNat as + 256 ^ as.length * leNat bs := by
  simp [leNat, Nat.ofDigits_append]

/-- A reading is below the power of 256 its length gives. -/
theorem leNat_lt (bs : List UInt8) : leNat bs < 256 ^ bs.length := by
  have h : ∀ x ∈ bs.map UInt8.toNat, x < 256 := by
    intro x hx
    obtain ⟨b, -, rfl⟩ := List.mem_map.mp hx
    exact b.toNat_lt
  simpa [leNat] using Nat.ofDigits_lt_base_pow_length (by decide) h

/-- Two byte strings of one length with one little-endian value are equal. -/
theorem leNat_inj {as bs : List UInt8} (hlen : as.length = bs.length)
    (h : leNat as = leNat bs) : as = bs := by
  induction as generalizing bs with
  | nil => exact (List.length_eq_zero_iff.mp hlen.symm).symm
  | cons a as ih =>
    cases bs with
    | nil => simp at hlen
    | cons b bs =>
      simp only [leNat_cons] at h
      have ha := a.toNat_lt
      have hb := b.toNat_lt
      have hab : a = b := UInt8.toNat_inj.mp (by omega)
      rw [hab, ih (by simpa using hlen) (by omega)]

@[simp] theorem beNat_nil : beNat [] = 0 := rfl

@[simp] theorem beNat_reverse (bs : List UInt8) : beNat bs.reverse = leNat bs := by
  simp [beNat]

theorem beNat_cons (b : UInt8) (bs : List UInt8) :
    beNat (b :: bs) = b.toNat * 256 ^ bs.length + beNat bs := by
  simp [beNat, leNat_append, Nat.mul_comm, Nat.add_comm]

theorem beNat_lt (bs : List UInt8) : beNat bs < 256 ^ bs.length := by
  simpa [beNat] using leNat_lt bs.reverse

/-! ## Writing -/

@[simp] theorem length_leBytes (k n : Nat) : (leBytes k n).length = k := by
  induction k generalizing n with
  | zero => rfl
  | succ k ih => simp [leBytes, ih]

/-- Reading back `k` written bytes gives the number modulo `256 ^ k`. -/
theorem leNat_leBytes_mod (k n : Nat) : leNat (leBytes k n) = n % 256 ^ k := by
  induction k generalizing n with
  | zero => simp [leBytes, Nat.mod_one]
  | succ k ih =>
    have hb : (UInt8.ofNat n).toNat = n % 256 := UInt8.toNat_ofNat'
    rw [leBytes, leNat_cons, ih, hb, Nat.pow_succ', Nat.mod_mul]

theorem leNat_leBytes {k n : Nat} (h : n < 256 ^ k) : leNat (leBytes k n) = n := by
  rw [leNat_leBytes_mod, Nat.mod_eq_of_lt h]

/-- Writing back a reading gives the bytes that were read. -/
theorem leBytes_leNat (bs : List UInt8) : leBytes bs.length (leNat bs) = bs :=
  leNat_inj (by simp) (by rw [leNat_leBytes (leNat_lt bs)])

/-- A byte written over a zero adds its value at its place. -/
theorem beNat_set {bs : List UInt8} {i : Nat} (h : bs[i]? = some 0) (b : UInt8) :
    beNat (bs.set i b) = beNat bs + b.toNat * 256 ^ (bs.length - 1 - i) := by
  induction bs generalizing i with
  | nil => simp at h
  | cons a bs ih =>
    cases i with
    | zero =>
      have ha : a = 0 := by simpa using h
      subst ha
      rw [List.set_cons_zero, beNat_cons, beNat_cons]
      simp [Nat.add_comm]
    | succ i =>
      have hi : bs[i]? = some 0 := by simpa using h
      have hlt : i < bs.length := (List.getElem?_eq_some_iff.mp hi).1
      rw [List.set_cons_succ, beNat_cons, beNat_cons, ih hi, List.length_set, List.length_cons,
        show bs.length + 1 - 1 - (i + 1) = bs.length - 1 - i by omega, Nat.add_assoc]

/-! ## Comparing -/

/-- Bytewise comparison from the most significant byte on. -/
def leqBytes : List UInt8 → List UInt8 → Bool
  | a :: as, b :: bs => if a < b then true else if b < a then false else leqBytes as bs
  | _, _ => true

/-- On byte strings of one length, bytewise comparison is comparison of the big-endian values: the
first differing byte outweighs everything after it. -/
theorem leqBytes_iff {as bs : List UInt8} (hlen : as.length = bs.length) :
    leqBytes as bs = true ↔ beNat as ≤ beNat bs := by
  induction as generalizing bs with
  | nil => simp [leqBytes]
  | cons a as ih =>
    cases bs with
    | nil => simp at hlen
    | cons b bs =>
      have hl : as.length = bs.length := by simpa using hlen
      have hA := beNat_lt as
      have hB := beNat_lt bs
      rw [hl] at hA
      have hlt : a < b ↔ a.toNat < b.toNat := UInt8.lt_iff_toNat_lt
      have hgt : b < a ↔ b.toNat < a.toNat := UInt8.lt_iff_toNat_lt
      simp only [leqBytes, beNat_cons, hl]
      split
      · next h =>
        have hstep : (a.toNat + 1) * 256 ^ bs.length ≤ b.toNat * 256 ^ bs.length :=
          Nat.mul_le_mul_right _ (hlt.mp h)
        rw [Nat.add_mul] at hstep
        simp only [true_iff]
        omega
      · split
        · next h =>
          have hstep : (b.toNat + 1) * 256 ^ bs.length ≤ a.toNat * 256 ^ bs.length :=
            Nat.mul_le_mul_right _ (hgt.mp h)
          rw [Nat.add_mul] at hstep
          simp only [Bool.false_eq_true, false_iff]
          omega
        · next h1 h2 =>
          have hab : a.toNat = b.toNat := by
            rw [hlt] at h1; rw [hgt] at h2; omega
          rw [hab, ih hl]
          omega

/-! ## Dividing -/

/-- Base-256 long division of the big-endian number `bs` by `d`, with a remainder `r` carried in:
the quotient's bytes, most significant first. -/
def longDiv (d : Nat) : Nat → List UInt8 → List UInt8
  | _, [] => []
  | r, b :: bs =>
    UInt8.ofNat ((r * 256 + b.toNat) / d) :: longDiv d ((r * 256 + b.toNat) % d) bs

@[simp] theorem length_longDiv (d r : Nat) (bs : List UInt8) :
    (longDiv d r bs).length = bs.length := by
  induction bs generalizing r with
  | nil => rfl
  | cons b bs ih => simp [longDiv, ih]

/-- With the carried remainder below the divisor, a quotient digit fits in a byte. -/
theorem longDiv_digit_lt {d r : Nat} (hr : r < d) (b : UInt8) : (r * 256 + b.toNat) / d < 256 := by
  have hb := b.toNat_lt
  rw [Nat.div_lt_iff_lt_mul (by omega)]
  calc r * 256 + b.toNat < (r + 1) * 256 := by omega
    _ ≤ d * 256 := Nat.mul_le_mul_right _ hr
    _ = 256 * d := Nat.mul_comm _ _

/-- Long division computes the quotient, as long as the carried remainder is below the divisor. -/
theorem beNat_longDiv {d r : Nat} (hr : r < d) (bs : List UInt8) :
    beNat (longDiv d r bs) = (r * 256 ^ bs.length + beNat bs) / d := by
  have hd : 0 < d := by omega
  induction bs generalizing r with
  | nil => simp [longDiv, Nat.div_eq_of_lt hr]
  | cons b bs ih =>
    have hdigit := longDiv_digit_lt hr b
    set v := r * 256 + b.toNat with hv
    have hsplit : r * 256 ^ (bs.length + 1) + (b.toNat * 256 ^ bs.length + beNat bs) =
        (v % d * 256 ^ bs.length + beNat bs) + d * (v / d * 256 ^ bs.length) := by
      calc r * 256 ^ (bs.length + 1) + (b.toNat * 256 ^ bs.length + beNat bs)
          = v * 256 ^ bs.length + beNat bs := by rw [hv, Nat.pow_succ]; ring
        _ = (v % d + d * (v / d)) * 256 ^ bs.length + beNat bs := by rw [Nat.mod_add_div]
        _ = _ := by ring
    rw [longDiv, beNat_cons, beNat_cons, ih (Nat.mod_lt _ hd), List.length_cons, length_longDiv,
      UInt8.toNat_ofNat_of_lt' hdigit, hsplit, Nat.add_mul_div_left _ _ hd]
    exact Nat.add_comm _ _

end Endian
