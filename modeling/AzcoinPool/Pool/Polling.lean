import AzcoinPool.Pool.Steps

/-!
# The calls of the job source

A poll is not one step: `current_job` returns to the poller, and the poller compares and broadcasts
behind that, while the sessions go on. `pollingMachine` is the pool with the two apart, so that the
order in which the calls of the poller and of the sessions return is any. What a step fetches is
said by `Polling.fetch`. A run of it is one of the pool (`exists_runsTo_pool`), and the invariants
of the pool hold in it.
-/

namespace AzcoinPool

variable {env : PoolEnv} {parseJson : String → Option Sv1Request}

/-- The pool with the job that the poller has got and not yet acted on. -/
structure Polling where
  pool : Pool := {}
  pending : Option Job := none

inductive PollingEvent where
  /-- A `current_job` of the poller returns, given the answer of the daemon. -/
  | answered (template : Except PoolError (Option BlockTemplate))
  /-- The poller goes through the rest of its turn. -/
  | turned
  /-- Any other event than a poll. -/
  | other (e : Event)

namespace Polling

def step (env : PoolEnv) (parseJson : String → Option Sv1Request) (s : Polling) :
    PollingEvent → Option Polling
  | .answered template =>
    match s.pending with
    | none => some { s with pending := env.currentJob template }
    | some _ => none
  | .turned => s.pending.map fun job => ⟨s.pool.poll (some job), none⟩
  | .other (.poll _) => none
  | .other e => (s.pool.step env parseJson e).map fun p => { s with pool := p }

/-- The rules of a step. -/
inductive StepTo (env : PoolEnv) (parseJson : String → Option Sv1Request) (s : Polling) :
    PollingEvent → Polling → Prop where
  | answered {template : Except PoolError (Option BlockTemplate)} (idle : s.pending = none) :
    StepTo env parseJson s (.answered template) { s with pending := env.currentJob template }
  | turnedSame {job : Job} (pending : s.pending = some job)
      (same : s.pool.poller.isNew job = false) :
    StepTo env parseJson s .turned ⟨s.pool, none⟩
  | turnedNew {job : Job} (pending : s.pending = some job)
      (new : s.pool.poller.isNew job = true) :
    StepTo env parseJson s .turned
      ⟨{ s.pool with
          poller := s.pool.poller.send job
          sessions := Pool.broadcast s.pool.sessions job }, none⟩
  | connect :
    StepTo env parseJson s (.other .connect)
      { s with pool := { s.pool with sessions := s.pool.sessions ++ [{}] } }
  | session {i : Nat} {e : SessionEvent} {x x' : Session} {shared : Shared}
      (get : s.pool.sessions[i]? = some x)
      (step : Session.StepTo env parseJson s.pool.shared x e shared x') :
    StepTo env parseJson s (.other (.session i e))
      { s with
        pool := { s.pool with shared := shared, sessions := s.pool.sessions.set i x' } }

/-- Every step follows the rules. -/
theorem step_cases {s s' : Polling} {e : PollingEvent} (h : s.step env parseJson e = some s') :
    StepTo env parseJson s e s' := by
  cases e with
  | answered template =>
    simp only [step] at h
    split at h
    · next hidle => cases h; exact .answered hidle
    · cases h
  | turned =>
    obtain ⟨job, hpending, rfl⟩ := Option.map_eq_some_iff.mp h
    rw [Pool.poll]
    split
    · next hnew => exact .turnedNew hpending hnew
    · next hsame => exact .turnedSame hpending (by simpa using hsame)
  | other e =>
    cases e with
    | poll template => cases h
    | connect => cases h; exact .connect
    | session i e =>
      obtain ⟨p, hp, rfl⟩ := Option.map_eq_some_iff.mp h
      cases Pool.step_cases hp with
      | session get step => exact .session get step

end Polling

/-! ## Fetched jobs -/

/-- Who calls `current_job` for a job to mine on. -/
inductive Caller where
  | poller
  /-- The session at the index, in `on_authorize`. -/
  | session (i : Nat)
  deriving DecidableEq

/-- A call of `current_job` that has returned a job. -/
structure Fetch where
  caller : Caller
  job : Job

/-- The call of `current_job` that returns a job in the step. -/
def Polling.fetch (env : PoolEnv) (s : Polling) : PollingEvent → Option Fetch
  | .answered template => (env.currentJob template).map (⟨.poller, ·⟩)
  | .other (.session i (.currentJob template)) =>
    match s.pool.sessions[i]? with
    | none => none
    | some x =>
      match x.pc with
      | .authorizing _ _ => (env.currentJob template).map (⟨.session i, ·⟩)
      | _ => none
  | _ => none

/-- A step of a session fetches a job just when the answer to its authorization has one. -/
theorem Polling.fetch_session {s : Polling} {i : Nat} {e : SessionEvent} {x : Session}
    (get : s.pool.sessions[i]? = some x) {f : Fetch} :
    s.fetch env (.other (.session i e)) = some f ↔
      ∃ template id username, e = .currentJob template ∧ x.pc = .authorizing id username ∧
        f.caller = .session i ∧ env.currentJob template = some f.job := by
  cases e with
  | currentJob template =>
    simp only [fetch, get]
    cases hpc : x.pc with
    | authorizing id username =>
      simp only [Option.map_eq_some_iff]
      constructor
      · rintro ⟨job, hjob, rfl⟩
        exact ⟨template, id, username, rfl, rfl, rfl, hjob⟩
      · rintro ⟨t, _, _, heq, -, hcaller, hjob⟩
        cases heq
        exact ⟨f.job, hjob, by rw [← hcaller]⟩
    | _ => simp
  | _ => simp [fetch]

/-- The pool with a poll in two steps, as a machine. -/
def pollingMachine (env : PoolEnv) (parseJson : String → Option Sv1Request) :
    Machine Polling PollingEvent where
  init := {}
  step := Polling.step env parseJson

/-- A run of it is one of the pool, and the pending job one of the source. -/
theorem exists_runsTo_pool {Ok : Polling → PollingEvent → Prop} {es : List PollingEvent}
    {s : Polling} (h : (pollingMachine env parseJson).RunsTo Ok es s) :
    (∃ es', (poolMachine env parseJson).RunsTo (fun _ _ => True) es' s.pool) ∧
      ∀ job ∈ s.pending, ∃ template, env.currentJob template = some job := by
  induction h with
  | nil => exact ⟨⟨[], .nil⟩, by intro job hjob; cases hjob⟩
  | @snoc es s s' e run ok step ih =>
    obtain ⟨⟨es', hrun⟩, hpending⟩ := ih
    cases e with
    | answered template =>
      have hstep : s.step env parseJson (.answered template) = some s' := step
      cases Polling.step_cases hstep with
      | answered idle => exact ⟨⟨es', hrun⟩, fun job hjob => ⟨template, hjob⟩⟩
    | turned =>
      obtain ⟨job, hjob, rfl⟩ := Option.map_eq_some_iff.mp step
      obtain ⟨template, htemplate⟩ := hpending job hjob
      refine ⟨⟨es' ++ [.poll template], hrun.snoc trivial ?_⟩, by intro job hjob; cases hjob⟩
      show some (s.pool.poll (env.currentJob template)) = _
      rw [htemplate]
    | other e =>
      have hstep : ∃ p, s.pool.step env parseJson e = some p ∧ s' = { s with pool := p } := by
        cases e with
        | poll template => cases step
        | connect => cases step; exact ⟨_, rfl, rfl⟩
        | session i e =>
          obtain ⟨p, hp, rfl⟩ := Option.map_eq_some_iff.mp step
          exact ⟨p, hp, rfl⟩
      obtain ⟨p, hp, rfl⟩ := hstep
      exact ⟨⟨es' ++ [e], hrun.snoc trivial hp⟩, hpending⟩

/-! ## A fixture -/

/-- A poll, up to the broadcast. -/
def pollTurn (template : BlockTemplate) : List PollingEvent :=
  [.answered (.ok (some template)), .turned]

/-- Events of the sessions and the listener. -/
def others (es : List Event) : List PollingEvent := es.map .other

end AzcoinPool
