import Mathlib.Data.List.Basic

/-!
# Sequential objects

An object that operations are applied to one at a time, each of which returns something. A history,
the operations with what they returned, is legal when the object returns just that
(`SequentialObject.Legal`). So every operation of a legal history returned what the object returns
to it behind the operations in front (`Legal.returned`). A service whose calls overlap does nothing
the object could not do, when the effects of its calls, in the order they have them, are a legal
history.
-/

/-- An object with its initial state. -/
structure SequentialObject (σ ω ρ : Type*) where
  init : σ
  apply : σ → ω → σ × ρ

namespace SequentialObject

variable {σ ω ρ : Type*} {o : SequentialObject σ ω ρ}

/-- The state behind operations. -/
def state (o : SequentialObject σ ω ρ) (ops : List ω) : σ :=
  ops.foldl (fun s op => (o.apply s op).1) o.init

@[simp] theorem state_append_singleton (ops : List ω) (op : ω) :
    o.state (ops ++ [op]) = (o.apply (o.state ops) op).1 := by
  rw [state, List.foldl_append]
  rfl

/-- A history in which every operation returned what the object returns to it. -/
inductive Legal (o : SequentialObject σ ω ρ) : List (ω × ρ) → Prop where
  | nil : Legal o []
  | snoc {h : List (ω × ρ)} {op : ω} {r : ρ} (legal : Legal o h)
      (returns : (o.apply (o.state (h.map Prod.fst)) op).2 = r) : Legal o (h ++ [(op, r)])

/-- An operation of a legal history returned what the object returns to it behind those in front. -/
theorem Legal.returned {h pre post : List (ω × ρ)} {op : ω} {r : ρ} (legal : o.Legal h)
    (heq : h = pre ++ (op, r) :: post) : (o.apply (o.state (pre.map Prod.fst)) op).2 = r := by
  induction legal generalizing post with
  | nil => simp at heq
  | @snoc h op' r' _ returns ih =>
    rcases List.eq_nil_or_concat post with rfl | ⟨post', last, rfl⟩
    · obtain ⟨rfl, hlast⟩ := List.append_inj' heq rfl
      cases hlast
      exact returns
    · rw [List.concat_eq_append, ← List.cons_append, ← List.append_assoc] at heq
      exact ih (List.append_inj' heq rfl).1

end SequentialObject
