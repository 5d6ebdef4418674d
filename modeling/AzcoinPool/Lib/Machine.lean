import Mathlib.Data.List.Induction

/-!
# Machines and their runs

A machine is an initial state and an executable step on events that may be refused. A run meets a
condition when every one of its steps does, judged on the state before it and the event. What holds
initially and is preserved by the steps that meet the condition holds behind every such run
(`RunsTo.invariant`), and a condition that tells which steps preserve a property tells which runs
have it throughout (`runsTo_leadsTo_iff`). A condition that is decided can be made part of the
machine (`runsTo_of_run_guard`), and so can a history of the run (`track`), which does not change
the runs (`RunsTo.of_track`, `RunsTo.exists_track`). Runs are carried over to a machine with other
events by `RunsTo.map`.
-/

/-- A state machine that is driven by events. -/
structure Machine (σ ε : Type*) where
  init : σ
  step : σ → ε → Option σ

namespace Machine

variable {σ ε : Type*} {m : Machine σ ε}

/-- The run over a list of events. -/
def run (m : Machine σ ε) (es : List ε) : Option σ := es.foldlM m.step m.init

theorem run_append (m : Machine σ ε) (es es' : List ε) :
    m.run (es ++ es') = (m.run es).bind fun s => es'.foldlM m.step s :=
  List.foldlM_append

/-- Behind a run over the events, every step of which meets the condition, the machine is in the
state. -/
inductive RunsTo (m : Machine σ ε) (Ok : σ → ε → Prop) : List ε → σ → Prop where
  | nil : RunsTo m Ok [] m.init
  | snoc {es : List ε} {s s' : σ} {e : ε} (run : RunsTo m Ok es s) (ok : Ok s e)
      (step : m.step s e = some s') : RunsTo m Ok (es ++ [e]) s'

/-- What holds initially and is preserved by the steps that meet the condition holds behind every
run that meets it. -/
theorem RunsTo.invariant {Ok : σ → ε → Prop} (I : σ → Prop) (hinit : I m.init)
    (hstep : ∀ {s e s'}, I s → Ok s e → m.step s e = some s' → I s') {es : List ε} {s : σ}
    (h : RunsTo m Ok es s) : I s := by
  induction h with
  | nil => exact hinit
  | snoc _ ok step ih => exact hstep ih ok step

/-- A run that meets a condition meets another one that its steps imply behind such a run. -/
theorem RunsTo.imp {Ok Ok' : σ → ε → Prop} (himp : ∀ {es : List ε} {s s' : σ} {e : ε},
    RunsTo m Ok es s → m.step s e = some s' → Ok s e → Ok' s e) {es : List ε} {s : σ}
    (h : RunsTo m Ok es s) : RunsTo m Ok' es s := by
  induction h with
  | nil => exact .nil
  | snoc run ok step ih => exact .snoc ih (himp run step ok) step

/-- Whatever state the event leads to has the property. -/
def LeadsTo (m : Machine σ ε) (P : σ → Prop) (s : σ) (e : ε) : Prop := ∀ s' ∈ m.step s e, P s'

/-- A run all of whose states have a property meets every condition that decides, from a state with
the property, whether a step keeps it, and conversely. -/
theorem runsTo_leadsTo_iff {Ok : σ → ε → Prop} {P : σ → Prop} (hinit : P m.init)
    (hstep : ∀ {es : List ε} {s s' : σ} {e : ε}, RunsTo m (fun _ _ => True) es s → P s →
      m.step s e = some s' → (P s' ↔ Ok s e)) {es : List ε} {s : σ} :
    RunsTo m (m.LeadsTo P) es s ↔ RunsTo m Ok es s := by
  constructor
  · intro h
    refine h.imp fun run step hleads => ?_
    have hP := run.invariant P hinit fun _ hleads hstep => hleads _ hstep
    exact (hstep (run.imp fun _ _ _ => trivial) hP step).mp (hleads _ step)
  · intro h
    suffices hboth : RunsTo m (m.LeadsTo P) es s ∧ P s from hboth.1
    induction h with
    | nil => exact ⟨.nil, hinit⟩
    | snoc run ok step ih =>
      obtain ⟨hrun, hP⟩ := ih
      have hP' := (hstep (run.imp fun _ _ _ => trivial) hP step).mpr ok
      refine ⟨.snoc hrun (fun t ht => ?_) step, hP'⟩
      obtain rfl : _ = t := Option.some.inj (step.symm.trans ht)
      exact hP'

/-- The machine that refuses an event that does not meet the condition. -/
def guard (m : Machine σ ε) (Ok : σ → ε → Prop) [∀ s e, Decidable (Ok s e)] : Machine σ ε where
  init := m.init
  step s e := if Ok s e then m.step s e else none

/-- A run of the machine that refuses what does not meet the condition meets it. -/
theorem runsTo_of_run_guard {Ok : σ → ε → Prop} [∀ s e, Decidable (Ok s e)] {es : List ε} {s : σ}
    (h : (m.guard Ok).run es = some s) : RunsTo m Ok es s := by
  induction es using List.reverseRecOn generalizing s with
  | nil => cases h; exact .nil
  | append_singleton es e ih =>
    rw [run_append] at h
    obtain ⟨s₁, h₁, h₂⟩ := Option.bind_eq_some_iff.mp h
    have hstep : (m.guard Ok).step s₁ e = some s := by simpa using h₂
    rw [guard] at hstep
    dsimp only at hstep
    split at hstep
    · next hok => exact .snoc (ih h₁) hok hstep
    · cases hstep

/-- The machine with a history of its runs, to which each step adds what it records. -/
def track {η : Type*} (m : Machine σ ε) (start : η) (record : σ → ε → η → η) :
    Machine (σ × η) ε where
  init := (m.init, start)
  step s e := (m.step s.1 e).map fun s' => (s', record s.1 e s.2)

/-- Without its history, a run is one of the machine. -/
theorem RunsTo.of_track {η : Type*} {start : η} {record : σ → ε → η → η} {Ok : σ × η → ε → Prop}
    {es : List ε} {s : σ × η} (h : RunsTo (m.track start record) Ok es s) :
    RunsTo m (fun _ _ => True) es s.1 := by
  induction h with
  | nil => exact .nil
  | snoc _ _ step ih =>
    obtain ⟨s', hstep, rfl⟩ := Option.map_eq_some_iff.mp step
    exact .snoc ih trivial hstep

/-- A run of the machine is one with a history. -/
theorem RunsTo.exists_track {η : Type*} {Ok : σ → ε → Prop} {es : List ε} {s : σ}
    (h : RunsTo m Ok es s) (start : η) (record : σ → ε → η → η) :
    ∃ hist, RunsTo (m.track start record) (fun _ _ => True) es (s, hist) := by
  induction h with
  | nil => exact ⟨start, .nil⟩
  | @snoc es s s' e _ _ step ih =>
    obtain ⟨hist, hrun⟩ := ih
    exact ⟨record s e hist, hrun.snoc trivial (by simp [track, step])⟩

/-- A machine that takes with the image of each event the step that another one takes with the event
has the images of its runs. -/
theorem RunsTo.map {ε' : Type*} {m' : Machine σ ε'} {f : ε → ε'} (hinit : m'.init = m.init)
    (hstep : ∀ s e s', m.step s e = some s' → m'.step s (f e) = some s') {Ok : σ → ε → Prop}
    {es : List ε} {s : σ} (h : RunsTo m Ok es s) :
    RunsTo m' (fun _ _ => True) (es.map f) s := by
  induction h with
  | nil =>
    rw [← hinit]
    exact .nil
  | snoc _ _ step ih =>
    rw [List.map_append]
    exact ih.snoc trivial (hstep _ _ _ step)

/-- Without a condition, a run is one of the executable function. -/
theorem runsTo_of_run {es : List ε} {s : σ} (h : m.run es = some s) :
    RunsTo m (fun _ _ => True) es s :=
  runsTo_of_run_guard (by simpa [guard] using h)

end Machine
