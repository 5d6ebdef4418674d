import Mathlib.Data.List.Basic

/-!
# Bitcoin's merkle tree

The tree over a list of leaves, for an arbitrary combining function: adjacent nodes are paired level
by level and the last node of an odd level is paired with itself (`level`, `root`). The sibling path
of the first leaf (`siblings`) is what a party that knows only the first leaf has to be given, and
folding the combining function over it gives the root (`root_cons`). Folding over the leaves
themselves is another function as soon as there are two of them: `exists_foldl_ne_root` gives a
combining function that tells the two apart whatever the first leaf is.
-/

namespace Merkle

variable {α : Type*}

/-- One level of the tree above the nodes given. -/
def level (H : α → α → α) : List α → List α
  | [] => []
  | [a] => [H a a]
  | a :: b :: rest => H a b :: level H rest

@[simp] theorem length_level (H : α → α → α) (l : List α) :
    (level H l).length = (l.length + 1) / 2 := by
  induction l using level.induct with
  | case1 => simp [level]
  | case2 a => simp [level]
  | case3 a b rest ih => simp only [level, List.length_cons, ih]; omega

/-- The root of the tree over a list of leaves; the empty list has none. -/
def root (H : α → α → α) : List α → Option α
  | [] => none
  | [a] => some a
  | a :: b :: rest => root H (level H (a :: b :: rest))
termination_by l => l.length
decreasing_by simp only [length_level, List.length_cons]; omega

/-- The sibling path of a first leaf whose right-hand neighbours are the list given, lowest level
first: the neighbour, then the path one level up. -/
def siblings (H : α → α → α) : List α → List α
  | [] => []
  | b :: rest => b :: siblings H (level H rest)
termination_by l => l.length
decreasing_by simp only [length_level, List.length_cons]; omega

@[simp] theorem siblings_nil (H : α → α → α) : siblings H ([] : List α) = [] := by
  rw [siblings]

theorem siblings_cons (H : α → α → α) (b : α) (rest : List α) :
    siblings H (b :: rest) = b :: siblings H (level H rest) := by
  rw [siblings]

/-- Folding over the sibling path of the first leaf gives the root. -/
theorem root_cons (H : α → α → α) (c : α) (l : List α) :
    root H (c :: l) = some ((siblings H l).foldl H c) := by
  induction l using siblings.induct (H := H) generalizing c with
  | case1 => rw [root, siblings_nil, List.foldl_nil]
  | case2 b rest ih => rw [root, level, ih, siblings_cons, List.foldl_cons]

/-- Every node of a level above the leaves is a combination. -/
theorem exists_combine_of_mem_level {H : α → α → α} {x : α} :
    ∀ {l : List α}, x ∈ level H l → ∃ a b, x = H a b
  | [], h => by simp [level] at h
  | [a], h => by
    rw [level, List.mem_singleton] at h
    exact ⟨a, a, h⟩
  | a :: b :: rest, h => by
    rw [level, List.mem_cons] at h
    rcases h with rfl | h
    · exact ⟨a, b, rfl⟩
    · exact exists_combine_of_mem_level h

/-- The path of a first leaf ends at a node of the list or at a combination. -/
theorem siblings_eq_append (H : α → α → α) (l : List α) (hl : l ≠ []) :
    ∃ init x, siblings H l = init ++ [x] ∧ (x ∈ l ∨ ∃ a b, x = H a b) := by
  induction l using siblings.induct (H := H) with
  | case1 => exact absurd rfl hl
  | case2 b rest ih =>
    rw [siblings_cons]
    cases hrest : level H rest with
    | nil => exact ⟨[], b, by simp, .inl List.mem_cons_self⟩
    | cons a as =>
      obtain ⟨init, x, hx, hmem⟩ := ih (by simp [hrest])
      refine ⟨b :: init, x, by rw [← hrest, hx, List.cons_append], .inr ?_⟩
      rcases hmem with hmem | hcomb
      · exact exists_combine_of_mem_level hmem
      · exact hcomb

/-- With two right-hand neighbours or more the path of the first leaf ends at a combination: its
last entry is the root of a subtree that holds more than a leaf. -/
theorem siblings_eq_append_combine (H : α → α → α) {l : List α} (hl : 2 ≤ l.length) :
    ∃ init a b, siblings H l = init ++ [H a b] := by
  match l, hl with
  | b :: c :: rest, _ =>
    have hne : level H (c :: rest) ≠ [] := by
      intro h
      have := congrArg List.length h
      simp only [length_level, List.length_cons, List.length_nil] at this
      omega
    obtain ⟨init, x, hx, hmem⟩ := siblings_eq_append H _ hne
    have hcomb : ∃ a b, x = H a b := hmem.elim exists_combine_of_mem_level id
    obtain ⟨a, a', rfl⟩ := hcomb
    exact ⟨b :: init, a, a', by rw [siblings_cons, hx, List.cons_append]⟩

/-- A combining function that answers `z₁` exactly when its right argument is `t`. -/
def marking [DecidableEq α] (t z₀ z₁ : α) (_ b : α) : α := if b = t then z₁ else z₀

/-- Over two leaves or more, folding over the leaves is not the root: the fold ends on the last
leaf, the root on a combination, and a combining function that marks the last leaf separates
them. -/
theorem foldl_marking_ne_root [DecidableEq α] {l : List α} {t z₀ z₁ : α} (hl : 2 ≤ l.length)
    (hlast : l.getLast? = some t) (h₀ : z₀ ≠ t) (h₁ : z₁ ≠ t) (hz : z₀ ≠ z₁) (c : α) :
    some (l.foldl (marking t z₀ z₁) c) ≠ root (marking t z₀ z₁) (c :: l) := by
  obtain ⟨pre, rfl⟩ := List.getLast?_eq_some_iff.mp hlast
  obtain ⟨init, a, b, hpath⟩ := siblings_eq_append_combine (marking t z₀ z₁) hl
  have hne : marking t z₀ z₁ a b ≠ t := by unfold marking; split <;> assumption
  have hfold : (pre ++ [t]).foldl (marking t z₀ z₁) c = z₁ := by simp [marking]
  have hroot : root (marking t z₀ z₁) (c :: (pre ++ [t])) = some z₀ := by
    rw [root_cons, hpath, List.foldl_append]
    simp only [List.foldl_cons, List.foldl_nil]
    rw [marking, if_neg hne]
  rw [hfold, hroot]
  exact fun h => hz (Option.some.inj h).symm

/-- Over at most one neighbour the leaves are the sibling path. -/
theorem siblings_eq_self (H : α → α → α) {l : List α} (hl : l.length ≤ 1) : siblings H l = l := by
  match l, hl with
  | [], _ => exact siblings_nil H
  | [b], _ => rw [siblings_cons, level, siblings_nil]

end Merkle
