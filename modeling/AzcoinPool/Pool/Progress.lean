import AzcoinPool.Lib.Rank
import AzcoinPool.Pool.Ledger

/-!
# A session gets back to its miner

A session that handles a request or a job always has a next step of its own, each such step brings
it closer to waiting for its miner again, and no step of the poller, of the listener or of another
session puts it back. After seven of its own steps at most it waits again, or the write of a line
has failed (`returns_of_runsTo`); nothing else ends it in between. A step takes its lock and lets it
go, so that no lock is held between two; and the build is a release build, whose arithmetic wraps:
with overflow checks `nbits_to_target` may panic (`nbitsToTargetChecked_eq`).
-/

namespace AzcoinPool

variable {env : PoolEnv} {parseJson : String → Option Sv1Request}

/-! ## The rank of a session -/

/-- The session handles a request or a job. -/
def SessionPc.isBusy : SessionPc → Bool
  | .select | .ended => false
  | _ => true

/-- How many steps an `on_submit` has left, with the response. -/
def SubmitStage.rank : SubmitStage → Nat
  | .lookup _ => 7
  | .recording _ _ _ => 6
  | .reporting _ _ _ => 5
  | .relookup _ _ => 4
  | .fetching _ _ _ => 3
  | .submitting _ _ _ => 2

/-- How many steps a session has left until it waits in `select!`. -/
def SessionPc.rank : SessionPc → Nat
  | .select | .ended => 0
  | .authorizing _ _ => 5
  | .submitting _ stage => stage.rank
  | .writing _ rest notify => rest.length + notify.toList.length + 1
  | .registering _ => 1

theorem SessionPc.rank_pos {pc : SessionPc} (h : pc.isBusy = true) : 0 < pc.rank := by
  cases pc with
  | select | ended => cases h
  | authorizing | registering => exact Nat.succ_pos _
  | writing => exact Nat.succ_pos _
  | submitting id stage => cases stage <;> exact Nat.succ_pos _

theorem SessionPc.rank_respond (env : PoolEnv) (response : Sv1Response) (notify : Option Job) :
    (respond env response notify).rank = 1 + 3 * notify.toList.length := by
  cases notify <;> rfl

@[simp] theorem SessionPc.isBusy_respond (env : PoolEnv) (response : Sv1Response)
    (notify : Option Job) : (respond env response notify).isBusy = true := by
  cases notify <;> rfl

/-- A step that a busy session takes itself. -/
def SessionEvent.isWork : SessionEvent → Bool
  | .arrive _ | .peerClose => false
  | _ => true

/-- A step that the session at the index takes itself. -/
def Event.isWorkOf (i : Nat) : Event → Bool
  | .session j e => i = j && e.isWork
  | _ => false

/-- What a busy session awaits: an answer of the job source or of the submitter, a lock, the end of
a write. -/
def SessionPc.awaits : SessionPc → SessionEvent → Bool
  | .authorizing _ _, .currentJob _ => true
  | .submitting _ (.fetching _ _ _), .currentJob _ => true
  | .submitting _ (.submitting _ _ _), .blockSubmitted _ => true
  | .submitting _ stage, .proceed =>
    match stage with
    | .lookup _ | .recording _ _ _ | .reporting _ _ _ | .relookup _ _ => true
    | .fetching _ _ _ | .submitting _ _ _ => false
  | .writing _ _ _, .written _ => true
  | .registering _, .proceed => true
  | _, _ => false

theorem SessionPc.exists_awaits {pc : SessionPc} (h : pc.isBusy = true) :
    ∃ e, pc.awaits e = true := by
  cases pc with
  | select | ended => cases h
  | authorizing => exact ⟨.currentJob (.ok none), rfl⟩
  | writing => exact ⟨.written true, rfl⟩
  | registering => exact ⟨.proceed, rfl⟩
  | submitting id stage =>
    cases stage with
    | lookup | recording | reporting | relookup => exact ⟨.proceed, rfl⟩
    | fetching => exact ⟨.currentJob (.ok none), rfl⟩
    | submitting => exact ⟨.blockSubmitted (.ok true), rfl⟩

namespace Session

variable {shared shared' : Shared} {x x' : Session} {e : SessionEvent}

/-- A step of a busy session brings it closer to the end; bytes that arrive change nothing. -/
theorem StepTo.rank_lt (h : StepTo env parseJson shared x e shared' x')
    (hbusy : x.pc.isBusy = true) :
    (e.isWork = true ∧ x'.pc.rank < x.pc.rank) ∨ (e.isWork = false ∧ x'.pc = x.pc) := by
  cases h with
  | arrive | peerClose => exact .inr ⟨rfl, rfl⟩
  | readPending pc | readEnd pc | readBlank pc | readInvalid pc | readDone pc | readAuthorize pc
  | readSubmit pc | recvLagged pc | recvSkip pc | recvNotify pc =>
    rw [pc] at hbusy
    cases hbusy
  | @authorized template id username pc =>
    refine .inl ⟨rfl, ?_⟩
    rw [pc, SessionPc.rank_respond]
    cases env.currentJob template <;> simp [SessionPc.rank]
  | notSubmitted pc | blockSubmitted pc | relookupNone pc | reported pc =>
    refine .inl ⟨rfl, ?_⟩
    rw [pc, finish, SessionPc.rank_respond]
    simp [SessionPc.rank, SubmitStage.rank]
  | panicked pc | submitted pc | lookup pc | recorded pc | reportedBlock pc | relookup pc
  | registered pc | wroteNext pc | wroteResponse pc | wroteNotify pc | writeFailed pc =>
    refine .inl ⟨rfl, ?_⟩
    rw [pc]
    simp [SessionPc.rank, SubmitStage.rank]

/-- A step never leaves more than seven steps. -/
theorem StepTo.rank_le (h : StepTo env parseJson shared x e shared' x') (hrank : x.pc.rank ≤ 7) :
    x'.pc.rank ≤ 7 := by
  cases hbusy : x.pc.isBusy with
  | true =>
    obtain ⟨-, hlt⟩ | ⟨-, heq⟩ := h.rank_lt hbusy
    · omega
    · rwa [heq]
  | false =>
    cases h with
    | arrive | peerClose | readPending | readBlank | recvLagged | recvSkip => exact hrank
    | readEnd | readAuthorize | recvNotify => simp [SessionPc.rank]
    | readInvalid | readDone => rw [SessionPc.rank_respond]; simp
    | @readSubmit _ _ _ _ _ share =>
      show (SubmitStage.start share).rank ≤ 7
      rw [SubmitStage.start]
      split <;> simp [SubmitStage.rank]
    | authorized pc | notSubmitted pc | panicked pc | submitted pc | lookup pc | recorded pc
    | reported pc | reportedBlock pc | relookupNone pc | relookup pc | registered pc
    | blockSubmitted pc | wroteNext pc | wroteResponse pc | wroteNotify pc | writeFailed pc =>
      rw [pc] at hbusy
      cases hbusy

/-- What a busy session awaits it goes on with, whatever the answer is. -/
theorem isSome_step_of_awaits (h : x.pc.awaits e = true) :
    (x.step env parseJson shared e).isSome = true := by
  unfold SessionPc.awaits at h
  split at h
  · next hpc => simp only [step, hpc]; rfl
  · next hpc => simp only [step, hpc]; rfl
  · next hpc => simp only [step, hpc]; rfl
  · next stage hpc =>
    cases stage with
    | lookup share => simp only [step, hpc, proceedSubmit]; rfl
    | recording share result validated => simp only [step, hpc, proceedSubmit]; rfl
    | reporting share result validated =>
      simp only [step, hpc, proceedSubmit]
      split <;> rfl
    | relookup share validated =>
      simp only [step, hpc, proceedSubmit]
      split <;> rfl
    | fetching | submitting => cases h
  · next ok hpc =>
    simp only [step, hpc]
    split <;> rfl
  · next hpc => simp only [step, hpc]; rfl
  · cases h

/-- A busy session that gets back waits, unless the write of a line has failed. -/
theorem StepTo.select_or_ended (h : StepTo env parseJson shared x e shared' x')
    (hpanic : x.PanicFree env)
    (hbusy : x.pc.isBusy = true) (hidle : x'.pc.isBusy = false) :
    x'.pc = .select ∨ x'.pc = .ended ∧ e = .written false := by
  cases h with
  | panicked pc step => exact absurd step (hpanic _ _ _ _ _ pc)
  | writeFailed => exact .inr ⟨rfl, rfl⟩
  | wroteResponse | registered => exact .inl rfl
  | arrive | peerClose =>
    rw [hbusy] at hidle
    cases hidle
  | readPending pc | readEnd pc | readBlank pc | readInvalid pc | readDone pc | readAuthorize pc
  | readSubmit pc | recvLagged pc | recvSkip pc | recvNotify pc =>
    rw [pc] at hbusy
    cases hbusy
  | authorized | notSubmitted | blockSubmitted | relookupNone | reported =>
    simp [finish] at hidle
  | submitted | lookup | recorded | reportedBlock | relookup | wroteNext | wroteNotify =>
    cases hidle

end Session

/-! ## In the pool -/

/-- A step of the pool takes a session a step on, or leaves it where it stands. -/
theorem Pool.exists_of_step {p p' : Pool} {e : Event} (h : p.step env parseJson e = some p')
    {i : Nat} {x : Session} (get : p.sessions[i]? = some x) :
    ∃ x', p'.sessions[i]? = some x' ∧
      ((∃ e', e = .session i e' ∧ Session.StepTo env parseJson p.shared x e' p'.shared x') ∨
        e.isWorkOf i = false ∧ x'.pc = x.pc) := by
  obtain ⟨x', get', hown | ⟨hother, hkept⟩⟩ := (Pool.step_cases h).exists_session get
  · exact ⟨x', get', .inl hown⟩
  · refine ⟨x', get', .inr ⟨?_, by rcases hkept with rfl | ⟨job, rfl⟩ <;> rfl⟩⟩
    cases e with
    | poll | connect => rfl
    | session j e =>
      have hij : i ≠ j := by
        rintro rfl
        exact hother e rfl
      simp [Event.isWorkOf, hij]

/-- The session at the index is busy. -/
def Pool.BusyAt (i : Nat) (p : Pool) : Prop := ∃ x, p.sessions[i]? = some x ∧ x.pc.isBusy = true

/-- How many steps the session at the index has left. -/
def Pool.rankAt (i : Nat) (p : Pool) : Nat := ((p.sessions[i]?).map (·.pc.rank)).getD 0

theorem Pool.rankAt_eq {i : Nat} {p : Pool} {x : Session} (get : p.sessions[i]? = some x) :
    p.rankAt i = x.pc.rank := by
  simp [rankAt, get]

/-- Over the runs of the pool a session's rank counts its steps. -/
theorem ranks_rankAt (i : Nat) : (poolMachine env parseJson).Ranks
    (fun p => ∃ es, (poolMachine env parseJson).RunsTo (fun _ _ => True) es p) (Pool.BusyAt i)
    (Event.isWorkOf i) (Pool.rankAt i) where
  invariant := by
    rintro p e p' ⟨es, hrun⟩ hstep
    exact ⟨es ++ [e], hrun.snoc trivial hstep⟩
  pos := by
    rintro p ⟨x, get, hbusy⟩
    rw [Pool.rankAt_eq get]
    exact SessionPc.rank_pos hbusy
  lowered := by
    rintro p e p' - ⟨x, get, hbusy⟩ hwork hstep
    obtain ⟨x', get', ⟨e', rfl, hrule⟩ | ⟨hother, -⟩⟩ := Pool.exists_of_step hstep get
    · rw [Pool.rankAt_eq get, Pool.rankAt_eq get']
      obtain ⟨-, hlt⟩ | ⟨hidle, -⟩ := hrule.rank_lt hbusy
      · exact hlt
      · simp [Event.isWorkOf, hidle] at hwork
    · rw [hwork] at hother
      cases hother
  kept := by
    rintro p e p' - ⟨x, get, hbusy⟩ - hstep
    obtain ⟨x', get', ⟨e', rfl, hrule⟩ | ⟨-, hpc⟩⟩ := Pool.exists_of_step hstep get
    · rw [Pool.rankAt_eq get, Pool.rankAt_eq get']
      obtain ⟨-, hlt⟩ | ⟨-, hpc⟩ := hrule.rank_lt hbusy
      · exact Nat.le_of_lt hlt
      · rw [hpc]
    · rw [Pool.rankAt_eq get, Pool.rankAt_eq get', hpc]

/-- Behind every run a session has seven steps left at most. -/
theorem rank_le_of_runsTo {Ok : Pool → Event → Prop} {es : List Event} {p : Pool}
    (h : (poolMachine env parseJson).RunsTo Ok es p) {i : Nat} {x : Session}
    (get : p.sessions[i]? = some x) : x.pc.rank ≤ 7 :=
  session_invariant (I := fun x => x.pc.rank ≤ 7) (by decide)
    (fun _ _ _ hrank hstep => hstep.rank_le hrank) (fun hrank _ => hrank) h get

/-- A session that handles a request or a job goes on with whatever answer it awaits, and in every
continuation of the run in which it takes seven steps of its own, between any steps of the others,
it gets back to waiting for its miner, or a write to the miner fails. -/
theorem returns_of_runsTo (hbitcoin : env.bitcoin.FollowsFormat) {es : List Event} {p : Pool}
    (h : (poolMachine env parseJson).RunsTo (fun _ _ => True) es p) {i : Nat} {x : Session}
    (get : p.sessions[i]? = some x) (hbusy : x.pc.isBusy = true) :
    ((∃ e, x.pc.awaits e = true) ∧ ∀ e, x.pc.awaits e = true →
      (p.step env parseJson (.session i e)).isSome = true) ∧
    ∀ es' p', (poolMachine env parseJson).runFrom p es' = some p' →
      7 ≤ es'.countP (Event.isWorkOf i) →
        ∃ es₀ e es₁ p₁ x₁, es' = es₀ ++ .session i e :: es₁ ∧
          (poolMachine env parseJson).runFrom p (es₀ ++ [.session i e]) = some p₁ ∧
          p₁.sessions[i]? = some x₁ ∧ (x₁.pc = .select ∨ x₁.pc = .ended ∧ e = .written false) := by
  refine ⟨⟨SessionPc.exists_awaits hbusy, fun e he => ?_⟩, fun es' p' hrun hwork => ?_⟩
  · have hstep : (x.step env parseJson p.shared e).isSome = true :=
      Session.isSome_step_of_awaits he
    simp only [Pool.step, get, Option.isSome_map, hstep]
  · have hrank : p.rankAt i ≤ es'.countP (Event.isWorkOf i) := by
      rw [Pool.rankAt_eq get]
      exact (rank_le_of_runsTo h get).trans hwork
    obtain ⟨es₀, e, es₁, p₀, p₁, rfl, hrun₀, ⟨es, hruns⟩, ⟨x₀, get₀, hbusy₀⟩, hstep, hidle⟩ :=
      (ranks_rankAt i).exists_step ⟨es, h⟩ ⟨x, get, hbusy⟩ hrun hrank
    obtain ⟨x₁, get₁, ⟨e', rfl, hrule⟩ | ⟨-, hpc⟩⟩ := Pool.exists_of_step hstep get₀
    · have hidle₁ : x₁.pc.isBusy = false := by
        rw [← Bool.not_eq_true]
        exact fun hbusy₁ => hidle ⟨x₁, get₁, hbusy₁⟩
      refine ⟨es₀, e', es₁, p₁, x₁, rfl, ?_, get₁, ?_⟩
      · rw [Machine.runFrom, List.foldlM_append]
        rw [Machine.runFrom] at hrun₀
        rw [hrun₀]
        simp [hstep]
      · exact hrule.select_or_ended (ne_panicked_of_runsTo hbitcoin hruns
          (List.mem_of_getElem? get₀)) hbusy₀ hidle₁
    · exact absurd ⟨x₁, get₁, by rw [hpc]; exact hbusy₀⟩ hidle

/-- A share's verdict, the call of the submitter and the response, between the steps of others. -/
theorem returns_fixture : ∃ p p' es₀ e es₁ p₁ x₁,
    (poolMachine fixtureEnv fixtureJson).run ([.connect] ++ handshake 0 (fixtureTemplate []) ++
      sendLine 0 submitLine) = some p ∧
    (poolMachine fixtureEnv fixtureJson).runFrom p ([.session 0 .proceed, .connect,
      .session 0 .proceed, .session 0 .proceed, .session 0 .proceed,
      .poll (.ok (some (templateAt 101))), .session 0 (.currentJob (.ok none)),
      .session 0 (.blockSubmitted (.ok true)), .session 0 (.written true)]) = some p' ∧
    [.session 0 .proceed, .connect, .session 0 .proceed, .session 0 .proceed, .session 0 .proceed,
      .poll (.ok (some (templateAt 101))), .session 0 (.currentJob (.ok none)),
      .session 0 (.blockSubmitted (.ok true)), .session 0 (.written true)] =
        es₀ ++ Event.session 0 e :: es₁ ∧
    (poolMachine fixtureEnv fixtureJson).runFrom p (es₀ ++ [.session 0 e]) = some p₁ ∧
    p₁.sessions[0]? = some x₁ ∧ (x₁.pc = .select ∨ x₁.pc = .ended ∧ e = .written false) := by
  have hany : ((poolMachine fixtureEnv fixtureJson).run ([.connect] ++
      handshake 0 (fixtureTemplate []) ++ sendLine 0 submitLine)).any (fun p =>
        (p.sessions[0]?).any (·.pc.isBusy) &&
        ((poolMachine fixtureEnv fixtureJson).runFrom p ([.session 0 .proceed, .connect,
          .session 0 .proceed, .session 0 .proceed, .session 0 .proceed,
          .poll (.ok (some (templateAt 101))), .session 0 (.currentJob (.ok none)),
          .session 0 (.blockSubmitted (.ok true)),
          .session 0 (.written true)])).isSome) = true := by
    decide +kernel
  obtain ⟨p, hp, hprops⟩ := (Option.any_eq_true _ _).mp hany
  rw [Bool.and_eq_true] at hprops
  obtain ⟨hbusy, hrun⟩ := hprops
  obtain ⟨x, get, hx⟩ := (Option.any_eq_true _ _).mp hbusy
  obtain ⟨p', hp'⟩ := Option.isSome_iff_exists.mp hrun
  obtain ⟨-, hreturns⟩ := returns_of_runsTo BitcoinCrate.ofFormat_followsFormat
    (Machine.runsTo_of_run hp) get hx
  obtain ⟨es₀, e, es₁, p₁, x₁, hes, hrun₁, get₁, hpc⟩ := hreturns _ p' hp' (by decide)
  exact ⟨p, p', es₀, e, es₁, p₁, x₁, hp, hp', hes, hrun₁, get₁, hpc⟩

end AzcoinPool
