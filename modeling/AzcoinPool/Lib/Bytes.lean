import Mathlib.Data.List.Infix
import Mathlib.Data.List.Basic

/-!
# Byte strings

Byte strings are lists of `UInt8`. `Bytes32` is the fixed-size array of 32 bytes, with its size as a
field. `findWindow` is the search for the first position of a pattern, with the facts a splitter of
byte strings needs: where an occurrence can start, that the first one is not behind a known one, and
when it is the known one (`findWindow_append_iff`).
-/

/-- A byte string. -/
abbrev Bytes := List UInt8

/-- An array of 32 bytes. -/
structure Bytes32 where
  bytes : Bytes
  length_eq : bytes.length = 32
  deriving DecidableEq

namespace Bytes32

@[ext] theorem ext {a b : Bytes32} (h : a.bytes = b.bytes) : a = b := by
  cases a; cases b; cases h; rfl

@[simp] theorem length_bytes (a : Bytes32) : a.bytes.length = 32 := a.length_eq

/-- The array with every byte equal to `b`. -/
def fill (b : UInt8) : Bytes32 := ⟨List.replicate 32 b, by simp⟩

/-- The bytes in the opposite order. -/
def reverse (a : Bytes32) : Bytes32 := ⟨a.bytes.reverse, by simp⟩

@[simp] theorem bytes_reverse (a : Bytes32) : a.reverse.bytes = a.bytes.reverse := rfl

@[simp] theorem reverse_reverse (a : Bytes32) : a.reverse.reverse = a := by
  ext1; simp

/-- The array with one byte written. -/
def set (a : Bytes32) (i : Nat) (b : UInt8) : Bytes32 := ⟨a.bytes.set i b, by simp⟩

theorem getElem?_set_ne {a : Bytes32} {i j : Nat} (h : i ≠ j) (b : UInt8) :
    (a.set i b).bytes[j]? = a.bytes[j]? := List.getElem?_set_ne h

theorem getElem?_fill {i : Nat} (h : i < 32) (b : UInt8) : (fill b).bytes[i]? = some b := by
  change (List.replicate 32 b)[i]? = some b
  rw [List.getElem?_replicate, if_pos h]

/-- The array with a given list of bytes, when the list has the size. -/
def ofList? (bs : Bytes) : Option Bytes32 :=
  if h : bs.length = 32 then some ⟨bs, h⟩ else none

@[simp] theorem ofList?_bytes (a : Bytes32) : ofList? a.bytes = some a := by
  simp [ofList?]

theorem ofList?_eq_some {bs : Bytes} {a : Bytes32} : ofList? bs = some a ↔ a.bytes = bs := by
  unfold ofList?
  split
  · next h => rw [Option.some.injEq, Bytes32.ext_iff]; exact eq_comm
  · next h =>
    simp only [reduceCtorEq, false_iff]
    rintro rfl
    exact h a.length_eq

/-- A function of two arrays as a function of their concatenation. -/
def onPair (f : Bytes32 → Bytes32 → Bytes32) (bs : Bytes) : Bytes32 :=
  match ofList? (bs.take 32), ofList? (bs.drop 32) with
  | some a, some b => f a b
  | _, _ => fill 0

@[simp] theorem onPair_append (f : Bytes32 → Bytes32 → Bytes32) (a b : Bytes32) :
    onPair f (a.bytes ++ b.bytes) = f a b := by
  simp [onPair]

/-- Whatever one array is, two further ones differ from it and from each other. -/
theorem exists_distinct (t : Bytes32) : ∃ z₀ z₁ : Bytes32, z₀ ≠ t ∧ z₁ ≠ t ∧ z₀ ≠ z₁ := by
  have h01 : fill 0 ≠ fill 1 := by decide
  have h02 : fill 0 ≠ fill 2 := by decide
  have h12 : fill 1 ≠ fill 2 := by decide
  by_cases h0 : fill 0 = t
  · exact ⟨fill 1, fill 2, h0 ▸ h01.symm, h0 ▸ h02.symm, h12⟩
  · by_cases h1 : fill 1 = t
    · exact ⟨fill 0, fill 2, h0, h1 ▸ h12.symm, h02⟩
    · exact ⟨fill 0, fill 1, h0, h1, h01⟩

end Bytes32

/-! ## Searching for a pattern -/

section
variable {α : Type*} [DecidableEq α]

/-- The first position at which `pat` occurs. -/
def findWindow (pat : List α) : List α → Option Nat
  | [] => if pat.isEmpty then some 0 else none
  | a :: l => if pat.isPrefixOf (a :: l) then some 0 else (findWindow pat l).map (· + 1)

/-- A position found is one of an occurrence. -/
theorem findWindow_sound {pat : List α} :
    ∀ {l : List α} {i : Nat}, findWindow pat l = some i → ∃ t, l.drop i = pat ++ t
  | [], i, h => by
    rw [findWindow] at h
    split at h
    · next hp => cases h; exact ⟨[], by simp [List.isEmpty_iff.mp hp]⟩
    · cases h
  | a :: l, i, h => by
    rw [findWindow] at h
    split at h
    · next hp =>
      cases h
      obtain ⟨t, ht⟩ := List.isPrefixOf_iff_prefix.mp hp
      exact ⟨t, ht.symm⟩
    · obtain ⟨j, hj, rfl⟩ := Option.map_eq_some_iff.mp h
      obtain ⟨t, ht⟩ := findWindow_sound hj
      exact ⟨t, by simpa using ht⟩

/-- An occurrence is found, and not behind the one that is known. -/
theorem findWindow_le {pat t : List α} :
    ∀ {pre : List α}, ∃ i, findWindow pat (pre ++ pat ++ t) = some i ∧ i ≤ pre.length
  | [] => by
    cases h : ([] : List α) ++ pat ++ t with
    | nil =>
      have hp : pat = [] := by simp at h; exact h.1
      exact ⟨0, by simp [findWindow, hp], Nat.le_refl _⟩
    | cons a l =>
      have hp : pat.isPrefixOf (a :: l) = true :=
        List.isPrefixOf_iff_prefix.mpr ⟨t, by simpa using h⟩
      exact ⟨0, by rw [findWindow, if_pos hp], Nat.le_refl _⟩
  | a :: pre => by
    rw [List.cons_append, List.cons_append, findWindow]
    split
    · exact ⟨0, rfl, Nat.zero_le _⟩
    · obtain ⟨i, hi, hle⟩ := @findWindow_le pat t pre
      exact ⟨i + 1, by rw [hi, Option.map_some], by simpa using hle⟩

end

/-- An occurrence of a pattern covers no element that is not in the pattern. -/
theorem mem_of_window {α : Type*} {pat l t : List α} {i j : Nat} (h : l.drop i = pat ++ t)
    (hij : i ≤ j)
    (hj : j < i + pat.length) : ∃ x ∈ pat, l[j]? = some x := by
  have hlt : j - i < pat.length := by omega
  refine ⟨pat[j - i], List.getElem_mem hlt, ?_⟩
  have hget : (l.drop i)[j - i]? = l[j]? := by
    rw [List.getElem?_drop]
    congr 1
    omega
  rw [← hget, h, List.getElem?_append_left hlt, List.getElem?_eq_getElem hlt]

/-! ## Where a pattern can occur -/

section
variable {α : Type*}

/-- An occurrence in a concatenation lies in one of the two parts, or it is cut by the seam. -/
theorem infix_append_cases {pat l₁ l₂ : List α} (h : pat <:+: l₁ ++ l₂) :
    pat <:+: l₁ ∨ pat <:+: l₂ ∨
      ∃ p q, p ≠ [] ∧ q ≠ [] ∧ pat = p ++ q ∧ p <:+ l₁ ∧ q <+: l₂ := by
  induction l₁ with
  | nil => exact .inr (.inl h)
  | cons a l₁ ih =>
    rw [List.cons_append, List.infix_cons_iff] at h
    rcases h with ⟨t, ht⟩ | h
    · -- the occurrence starts with the first element
      rw [← List.cons_append] at ht
      rcases List.append_eq_append_iff.mp ht with ⟨c, hc, -⟩ | ⟨q, hpat, hq⟩
      · exact .inl ⟨[], c, by rw [hc]; rfl⟩
      · cases q with
        | nil => exact .inl ⟨[], [], by rw [hpat]; simp⟩
        | cons b q =>
          exact .inr (.inr
            ⟨a :: l₁, b :: q, by simp, by simp, hpat, List.suffix_refl _, t, hq.symm⟩)
    · rcases ih h with h | h | ⟨p, q, hp, hq, hpat, hl₁, hl₂⟩
      · exact .inl (List.infix_cons h)
      · exact .inr (.inl h)
      · exact .inr (.inr ⟨p, q, hp, hq, hpat, List.suffix_cons_iff.mpr (.inr hl₁), hl₂⟩)

/-- No occurrence covers an element that is not in the pattern. -/
theorem infix_append_cons_iff {pat l₁ l₂ : List α} {b : α} (hne : pat ≠ []) (hb : b ∉ pat) :
    pat <:+: l₁ ++ b :: l₂ ↔ pat <:+: l₁ ∨ pat <:+: l₂ := by
  have hhead : ∀ {q : List α}, q ≠ [] → q <+: b :: l₂ → b ∈ q := by
    rintro (_ | ⟨c, q⟩) hq hprefix
    · exact absurd rfl hq
    · rw [(List.cons_prefix_cons.mp hprefix).1]
      exact List.mem_cons_self
  constructor
  · intro h
    rcases infix_append_cases h with h | h | ⟨p, q, -, hq, hpat, -, hl₂⟩
    · exact .inl h
    · rcases List.infix_cons_iff.mp h with h | h
      · exact absurd (hhead hne h) hb
      · exact .inr h
    · exact absurd (hpat ▸ List.mem_append_right p (hhead hq hl₂)) hb
  · rintro (h | h)
    · exact List.infix_append_of_infix_left h
    · exact List.infix_append_of_infix_right (List.infix_cons h)

/-- A pattern without repetitions is first found where it was appended, unless it occurs in front:
no occurrence can overlap another. -/
theorem findWindow_append_iff [DecidableEq α] {pat t : List α} (hne : pat ≠ [])
    (hnodup : pat.Nodup) {pre : List α} :
    findWindow pat (pre ++ pat ++ t) = some pre.length ↔ ¬ pat <:+: pre := by
  induction pre with
  | nil =>
    refine iff_of_true ?_ (by simpa using hne)
    obtain ⟨i, hi, hle⟩ := @findWindow_le _ _ pat t []
    obtain rfl : i = 0 := Nat.le_zero.mp hle
    exact hi
  | cons a pre ih =>
    rw [List.cons_append, List.cons_append, findWindow, List.infix_cons_iff]
    split
    · next hprefix =>
      -- an occurrence at the front that is not there without the appended one overlaps it
      have hpre : pat <+: a :: pre := by
        obtain ⟨s, hs⟩ := List.isPrefixOf_iff_prefix.mp hprefix
        rw [← List.cons_append, ← List.cons_append, List.append_assoc] at hs
        rcases List.append_eq_append_iff.mp hs with ⟨c, hc, -⟩ | ⟨q, hpat, hq⟩
        · exact ⟨c, hc.symm⟩
        · cases q with
          | nil => rw [hpat, List.append_nil]
          | cons b q =>
            rw [hpat] at hq hnodup
            obtain rfl : a = b := (List.cons.inj hq).1
            exact absurd (List.mem_append_right pre List.mem_cons_self)
              (List.nodup_cons.mp hnodup).1
      exact iff_of_false (by simp) (not_not.mpr (.inl hpre))
    · next hprefix =>
      have hpre : ¬ pat <+: a :: pre := fun hp => hprefix
        (List.isPrefixOf_iff_prefix.mpr (by
          rw [← List.cons_append, ← List.cons_append, List.append_assoc]
          exact hp.trans (List.prefix_append _ _)))
      rw [List.length_cons, Option.map_eq_some_iff]
      simp only [Nat.add_right_cancel_iff, exists_eq_right, ih, hpre, false_or]

end
