import Mathlib.Data.List.Perm.Basic

/-!
# Flow through components

Items go into a list of components, are held there and come out. Nothing is lost and nothing is
doubled when what went in is what came out together with what is held, up to order (`Conserved`). It
is kept by a step of one component that takes in, holds and puts out as much as it held and was
given (`Conserved.step`), by a new component that holds nothing, and by what leaves the holdings
alone. Where the items carry the index of their component, the same can be said of each component,
with its items in order (`ConservedInOrder`).
-/

/-- What went in is what came out, together with what the components hold. -/
def Conserved {σ α : Type*} (held : σ → List α) (input output : List α) (xs : List σ) : Prop :=
  input.Perm (output ++ xs.flatMap held)

namespace Conserved

variable {σ α : Type*} {held : σ → List α} {input output : List α} {xs : List σ}

theorem nil : Conserved held [] [] [] := List.Perm.refl _

/-- A component takes in and puts out. -/
theorem step (h : Conserved held input output xs) {i : Nat} {x x' : σ} (get : xs[i]? = some x)
    {taken given : List α} (flow : (taken ++ held x).Perm (given ++ held x')) :
    Conserved held (input ++ taken) (output ++ given) (xs.set i x') := by
  classical
  obtain ⟨hi, rfl⟩ := List.getElem?_eq_some_iff.mp get
  have hxs : xs.flatMap held =
      (xs.take i).flatMap held ++ (held xs[i] ++ (xs.drop (i + 1)).flatMap held) := by
    conv_lhs => rw [← List.take_append_drop i xs, List.drop_eq_getElem_cons hi]
    rw [List.flatMap_append, List.flatMap_cons]
  rw [Conserved, hxs, List.perm_iff_count] at h
  rw [Conserved, List.set_eq_take_append_cons_drop, if_pos hi, List.perm_iff_count]
  intro a
  have hcount := h a
  have hflow := List.perm_iff_count.mp flow a
  simp only [List.count_append, List.flatMap_append, List.flatMap_cons] at hcount hflow ⊢
  omega

/-- A component that holds nothing joins. -/
theorem append (h : Conserved held input output xs) {x : σ} (hx : held x = []) :
    Conserved held input output (xs ++ [x]) := by
  simpa [Conserved, hx] using h

/-- The components change, and hold what they held. -/
theorem map (h : Conserved held input output xs) {f : σ → σ} (hf : ∀ x, held (f x) = held x) :
    Conserved held input output (xs.map f) := by
  simpa [Conserved, List.flatMap_map, hf] using h

end Conserved

/-- The items of a component. -/
def itemsOf {α : Type*} (i : Nat) (items : List (Nat × α)) : List α :=
  (items.filter (·.1 = i)).map Prod.snd

section itemsOf

variable {α : Type*} {i j : Nat}

@[simp] theorem itemsOf_nil : itemsOf i ([] : List (Nat × α)) = [] := rfl

@[simp] theorem itemsOf_append (l l' : List (Nat × α)) :
    itemsOf i (l ++ l') = itemsOf i l ++ itemsOf i l' := by
  simp [itemsOf]

@[simp] theorem itemsOf_map_self (l : List α) : itemsOf i (l.map (i, ·)) = l := by
  simp [itemsOf, List.filter_map, Function.comp_def]

theorem itemsOf_map_of_ne (h : i ≠ j) (l : List α) : itemsOf i (l.map (j, ·)) = [] := by
  simp [itemsOf, List.filter_map, Function.comp_def, Ne.symm h]

end itemsOf

/-- What went into each component is what it put out, followed by what it holds. -/
def ConservedInOrder {σ α : Type*} (held : σ → List α) (input output : List (Nat × α))
    (xs : List σ) : Prop :=
  ∀ i, itemsOf i input = itemsOf i output ++ ((xs[i]?).map held).getD []

namespace ConservedInOrder

variable {σ α : Type*} {held : σ → List α} {input output : List (Nat × α)} {xs : List σ}

theorem nil : ConservedInOrder held [] [] [] := fun _ => rfl

/-- A component takes in and puts out. -/
theorem step (h : ConservedInOrder held input output xs) {i : Nat} {x x' : σ}
    (get : xs[i]? = some x) {taken given : List α} (flow : held x ++ taken = given ++ held x') :
    ConservedInOrder held (input ++ taken.map (i, ·)) (output ++ given.map (i, ·))
      (xs.set i x') := by
  intro j
  by_cases hj : j = i
  · subst hj
    have hlt := (List.getElem?_eq_some_iff.mp get).1
    have hj := h j
    rw [get] at hj
    simp only [itemsOf_append, itemsOf_map_self, List.getElem?_set_self hlt, Option.map_some,
      Option.getD_some] at hj ⊢
    rw [hj, List.append_assoc, List.append_assoc, flow]
  · simp only [itemsOf_append, itemsOf_map_of_ne hj, List.append_nil,
      List.getElem?_set_ne (Ne.symm hj)]
    exact h j

/-- A component that holds nothing joins. -/
theorem append (h : ConservedInOrder held input output xs) {x : σ} (hx : held x = []) :
    ConservedInOrder held input output (xs ++ [x]) := by
  intro i
  rw [h i]
  rcases Nat.lt_trichotomy i xs.length with hlt | rfl | hgt
  · rw [List.getElem?_append_left hlt]
  · simp [hx]
  · rw [List.getElem?_eq_none (by omega), List.getElem?_eq_none (by simp; omega)]

/-- The components change, and hold what they held. -/
theorem map (h : ConservedInOrder held input output xs) {f : σ → σ}
    (hf : ∀ x, held (f x) = held x) : ConservedInOrder held input output (xs.map f) := by
  intro i
  rw [h i, List.getElem?_map, Option.map_map]
  exact congrArg (fun g => _ ++ (Option.map g xs[i]?).getD []) (funext fun x => (hf x).symm)

end ConservedInOrder
