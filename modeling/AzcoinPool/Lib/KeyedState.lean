import Mathlib.Logic.Function.Basic
import Mathlib.Data.List.Basic

/-!
# State kept by key

A state that holds one component for each key, and operations that read and write the component of
one key only. What a run does to a component is what the operations on its key do to it
(`run_apply`), so a component depends on nothing else (`run_apply_congr`), and operations on
different keys can change places (`run_swap`).
-/

namespace KeyedState

variable {κ σ ω : Type*} [DecidableEq κ] (key : ω → κ) (act : ω → σ → σ)

/-- An operation acts on the component of its key. -/
def step (state : κ → σ) (op : ω) : κ → σ :=
  Function.update state (key op) (act op (state (key op)))

/-- The operations one after the other. -/
def run (state : κ → σ) (ops : List ω) : κ → σ := ops.foldl (step key act) state

theorem step_apply (state : κ → σ) (op : ω) (k : κ) :
    step key act state op k = if key op = k then act op (state k) else state k := by
  rw [step, Function.update_apply]
  by_cases h : key op = k
  · rw [if_pos h.symm, if_pos h, h]
  · rw [if_neg (Ne.symm h), if_neg h]

/-- The component of a key is what the operations on that key make of it, in their order. -/
theorem run_apply (state : κ → σ) (ops : List ω) (k : κ) :
    run key act state ops k =
      (ops.filter (key · = k)).foldl (fun component op => act op component) (state k) := by
  induction ops generalizing state with
  | nil => rfl
  | cons op ops ih =>
    change run key act (step key act state op) ops k = _
    rw [ih, step_apply]
    by_cases h : key op = k
    · rw [if_pos h, List.filter_cons_of_pos (by simpa using h), List.foldl_cons]
    · rw [if_neg h, List.filter_cons_of_neg (by simpa using h)]

/-- Runs that do the same on a key leave it the same. -/
theorem run_apply_congr {ops ops' : List ω} {k : κ}
    (h : ops.filter (key · = k) = ops'.filter (key · = k)) (state : κ → σ) :
    run key act state ops k = run key act state ops' k := by
  rw [run_apply, run_apply, h]

/-- Two operations on different keys that follow each other can change places. -/
theorem run_swap {a b : ω} (h : key a ≠ key b) (pre post : List ω) (state : κ → σ) :
    run key act state (pre ++ a :: b :: post) = run key act state (pre ++ b :: a :: post) := by
  funext k
  refine run_apply_congr key act ?_ state
  by_cases ha : key a = k
  · have hb : key b ≠ k := fun hb => h (ha.trans hb.symm)
    simp [ha, hb]
  · simp [List.filter_cons, ha]

end KeyedState
