import AzcoinPool.Lib.Machine

/-!
# Ranks

A rank bounds how long a busy state stays busy: the events that are work for it lower the rank, and
no other event raises it. A run with as many of these events as the rank is high goes through a step
that leaves the busy states (`Ranks.exists_step`).
-/

namespace Machine

variable {σ ε : Type*} {m : Machine σ ε}

/-- The run over a list of events from a state. -/
def runFrom (m : Machine σ ε) (s : σ) (es : List ε) : Option σ := es.foldlM m.step s

theorem runFrom_cons (m : Machine σ ε) (s : σ) (e : ε) (es : List ε) :
    m.runFrom s (e :: es) = (m.step s e).bind fun s' => m.runFrom s' es := List.foldlM_cons

/-- What a rank is to satisfy: it is positive in busy states, work lowers it there, and other events
do not raise it. -/
structure Ranks (m : Machine σ ε) (I : σ → Prop) (Busy : σ → Prop) (work : ε → Bool)
    (rank : σ → Nat) : Prop where
  invariant : ∀ {s e s'}, I s → m.step s e = some s' → I s'
  pos : ∀ {s}, Busy s → 0 < rank s
  lowered : ∀ {s e s'}, I s → Busy s → work e = true → m.step s e = some s' → rank s' < rank s
  kept : ∀ {s e s'}, I s → Busy s → work e = false → m.step s e = some s' → rank s' ≤ rank s

/-- In a run from a busy state that has as much work as its rank, a step leaves the busy states. -/
theorem Ranks.exists_step {I Busy : σ → Prop} {work : ε → Bool} {rank : σ → Nat}
    (h : m.Ranks I Busy work rank) {es : List ε} {s s' : σ} (hs : I s) (hbusy : Busy s)
    (hrun : m.runFrom s es = some s') (hwork : rank s ≤ es.countP work) :
    ∃ es₀ e es₁ s₀ s₁, es = es₀ ++ e :: es₁ ∧ m.runFrom s es₀ = some s₀ ∧ I s₀ ∧ Busy s₀ ∧
      m.step s₀ e = some s₁ ∧ ¬Busy s₁ := by
  induction es generalizing s with
  | nil =>
    have hpos := h.pos hbusy
    rw [List.countP_nil] at hwork
    omega
  | cons e es ih =>
    rw [runFrom_cons] at hrun
    obtain ⟨t, hstep, hrun⟩ := Option.bind_eq_some_iff.mp hrun
    by_cases ht : Busy t
    · have hrank : rank t ≤ es.countP work := by
        rw [List.countP_cons] at hwork
        cases hwork' : work e with
        | true =>
          have hlt := h.lowered hs hbusy hwork' hstep
          rw [hwork', if_pos rfl] at hwork
          omega
        | false =>
          have hle := h.kept hs hbusy hwork' hstep
          rw [hwork', if_neg Bool.false_ne_true] at hwork
          omega
      obtain ⟨es₀, e', es₁, s₀, s₁, rfl, hrun₀, hI, hbusy₀, hstep₀, hidle⟩ :=
        ih (h.invariant hs hstep) ht hrun hrank
      refine ⟨e :: es₀, e', es₁, s₀, s₁, rfl, ?_, hI, hbusy₀, hstep₀, hidle⟩
      rw [runFrom_cons, hstep]
      exact hrun₀
    · exact ⟨[], e, es, s, t, rfl, rfl, hs, hbusy, hstep, ht⟩

end Machine
