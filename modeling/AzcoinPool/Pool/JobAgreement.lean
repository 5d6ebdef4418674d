import AzcoinPool.Pool.Steps

/-!
# The job behind an id

The registry is one map for all sessions, and the id of a job is the height of its template. A
session that goes by an id holds a job for it (`Holding`), and the registry can have another job
under the id. It has one of the same work as long as no session registers a job under an id for
which another session holds a job of different work (`RegistersSameWork`); a step from agreement
leads to agreement just when it meets this condition (`registryAgrees_step_iff`).

The first holding is that of a session whose miner works on a job: a share on the last job notified
is validated against the work of that job (`validatesAsNotified_of_runsTo`).
-/

namespace AzcoinPool

variable {env : PoolEnv} {parseJson : String → Option Sv1Request}

/-! ## Agreement with the registry -/

/-- The id a session goes by, with the job it holds for it. -/
abbrev Holding := Session → Option (String × Job)

/-- What the registry has under the id of a held job gives the same work. -/
def RegistryAgrees (hold : Holding) (p : Pool) : Prop :=
  ∀ (s : Nat) (x : Session) (id : String) (held job : Job), p.sessions[s]? = some x →
    hold x = some (id, held) → p.shared.registry.getJob id = some job → job.SameWork held

/-- The session that registers a job in the step, with the job. -/
def Pool.registration (p : Pool) : Event → Option (Nat × Job)
  | .session s .proceed => (p.sessions[s]?.bind (·.pc.registeringJob)).map (s, ·)
  | _ => none

theorem Pool.registration_eq_some {p : Pool} {e : Event} {s : Nat} {job : Job} :
    p.registration e = some (s, job) ↔
      e = .session s .proceed ∧ ∃ x, p.sessions[s]? = some x ∧ x.pc = .registering job := by
  unfold registration
  split
  · next t =>
    simp only [Option.map_eq_some_iff, Option.bind_eq_some_iff, Prod.mk.injEq,
      SessionPc.registeringJob_eq_some, Event.session.injEq, and_true]
    constructor
    · rintro ⟨job, ⟨x, hx, hpc⟩, rfl, rfl⟩
      exact ⟨rfl, x, hx, hpc⟩
    · rintro ⟨rfl, x, hx, hpc⟩
      exact ⟨job, ⟨x, hx, hpc⟩, rfl, rfl⟩
  · next hne =>
    simp only [false_iff, reduceCtorEq]
    rintro ⟨rfl, -⟩
    exact hne s rfl

/-- A session that registers a job registers one of the same work as the jobs that other sessions
hold under its id. -/
def RegistersSameWork (hold : Holding) (p : Pool) (e : Event) : Prop :=
  ∀ r ∈ p.registration e, ∀ s < p.sessions.length, s ≠ r.1 → ∀ x ∈ p.sessions[s]?,
    ∀ held ∈ hold x, held.1 = r.2.jobId → r.2.SameWork held.2

instance (hold : Holding) (p : Pool) (e : Event) : Decidable (RegistersSameWork hold p e) :=
  inferInstanceAs (Decidable (∀ r ∈ p.registration e, ∀ s < p.sessions.length, s ≠ r.1 →
    ∀ x ∈ p.sessions[s]?, ∀ held ∈ hold x, held.1 = r.2.jobId → r.2.SameWork held.2))

/-- A holding that the steps of the session itself keep in agreement. -/
structure Holding.Sound (env : PoolEnv) (parseJson : String → Option Sv1Request)
    (hold : Holding) : Prop where
  new : hold {} = none
  receiver : ∀ {x : Session} {receiver : Receiver}, hold { x with receiver := receiver } = hold x
  registering : ∀ {x : Session} {job : Job}, x.pc = .registering job → hold x = none
  /-- A held job was held before the step, or agrees with the registry behind it. -/
  step : ∀ {shared shared' : Shared} {x x' : Session} {e : SessionEvent} {id : String} {held : Job},
    x.JobFacts env → Session.StepTo env parseJson shared x e shared' x' →
      hold x' = some (id, held) → hold x = some (id, held) ∨
        ∀ job, shared'.registry.getJob id = some job → job.SameWork held

namespace RegistryAgrees

variable {hold : Holding} {p p' : Pool}

/-- What agrees behind a registration was of the same work. -/
theorem registersSameWork {e : Event}
    (hfacts : ∀ {s : Nat} {x : Session}, p.sessions[s]? = some x → x.JobFacts env)
    (hagrees' : RegistryAgrees hold p') (hstep : Pool.StepTo env parseJson p e p') :
    RegistersSameWork hold p e := by
  rintro ⟨t, job⟩ hreg s - hne y hy ⟨id, held⟩ hheld rfl
  obtain ⟨rfl, x, hx, hpc⟩ := Pool.registration_eq_some.mp hreg
  cases hstep with
  | @session _ _ x₁ x' shared get step =>
    obtain rfl : x₁ = x := Option.some.inj (get.symm.trans hx)
    have hclean := ((hfacts get).notifying job (by rw [hpc]; rfl)).cleanJobs
    have hy' : (p.sessions.set t x')[s]? = some y := by
      rw [List.getElem?_set_ne (Ne.symm hne)]
      exact hy
    refine hagrees' s y _ held job hy' hheld ?_
    dsimp only
    rw [step.of_registering hpc, ActiveJobRegistry.getJob_register_of_clean _ hclean, if_pos rfl]

/-- Behind its step, the job a session holds agrees with the registry. -/
theorem own (hagrees : RegistryAgrees hold p) (sound : hold.Sound env parseJson) {s : Nat}
    {x x' : Session} {shared : Shared} {e : SessionEvent} (get : p.sessions[s]? = some x)
    (hfacts : x.JobFacts env) (step : Session.StepTo env parseJson p.shared x e shared x')
    {id : String} {held job : Job} (hheld : hold x' = some (id, held))
    (hget : shared.registry.getJob id = some job) : job.SameWork held := by
  obtain hbefore | hbehind := sound.step hfacts step hheld
  · obtain ⟨job', -, hpc, -⟩ | hregistry := step.registry_eq
    · rw [sound.registering hpc] at hbefore
      cases hbefore
    · rw [hregistry] at hget
      exact hagrees s x id held job get hbefore hget
  · exact hbehind job hget

/-- Behind the step of a session that registers the same work, the job another one holds agrees with
the registry. -/
theorem other (hagrees : RegistryAgrees hold p) {t : Nat} {y y' : Session} {shared : Shared}
    {e : SessionEvent} (hok : RegistersSameWork hold p (.session t e))
    (get : p.sessions[t]? = some y) (hfacts : y.JobFacts env)
    (step : Session.StepTo env parseJson p.shared y e shared y') {s : Nat} (hne : s ≠ t)
    {x : Session} (hx : p.sessions[s]? = some x) {id : String} {held job : Job}
    (hheld : hold x = some (id, held)) (hget : shared.registry.getJob id = some job) :
    job.SameWork held := by
  obtain ⟨job', rfl, hpc, -, hregistry⟩ | hregistry := step.registry_eq
  · have hclean := (hfacts.notifying job' (by rw [hpc]; rfl)).cleanJobs
    rw [hregistry, ActiveJobRegistry.getJob_register_of_clean _ hclean] at hget
    split at hget
    · next hid =>
      cases hget
      exact hok (t, job) (Pool.registration_eq_some.mpr ⟨rfl, y, get, hpc⟩) s
        (List.getElem?_eq_some_iff.mp hx).1 hne x hx (id, held) hheld hid
    · cases hget
  · rw [hregistry] at hget
    exact hagrees s x id held job hx hheld hget

/-- A step that registers the same work keeps the agreement. -/
theorem step (hagrees : RegistryAgrees hold p) (sound : hold.Sound env parseJson) {e : Event}
    (hfacts : ∀ {s : Nat} {x : Session}, p.sessions[s]? = some x → x.JobFacts env)
    (hok : RegistersSameWork hold p e) (hstep : Pool.StepTo env parseJson p e p') :
    RegistryAgrees hold p' := by
  intro s x id held job hx hheld hget
  cases hstep with
  | pollNothing current => exact hagrees s x id held job hx hheld hget
  | pollSame current same => exact hagrees s x id held job hx hheld hget
  | pollNew current new =>
    obtain ⟨y, hy, rfl | rfl⟩ := Pool.broadcast_eq_some hx
    · exact hagrees s x id held job hy hheld hget
    · rw [sound.receiver] at hheld
      exact hagrees s y id held job hy hheld hget
  | connect =>
    obtain hold | rfl := Pool.connect_eq_some hx
    · exact hagrees s x id held job hold hheld hget
    · rw [sound.new] at hheld
      cases hheld
  | @session t _ y y' shared get step =>
    obtain ⟨rfl, rfl⟩ | ⟨hne, hx⟩ := Pool.set_eq_some hx
    · exact hagrees.own sound get (hfacts get) step hheld hget
    · exact hagrees.other hok get (hfacts get) step hne hx hheld hget

end RegistryAgrees

/-- From agreement, a step leads to agreement just when it registers the same work. -/
theorem registryAgrees_step_iff {hold : Holding} (sound : hold.Sound env parseJson) {p p' : Pool}
    {e : Event} (hfacts : ∀ {s : Nat} {x : Session}, p.sessions[s]? = some x → x.JobFacts env)
    (hagrees : RegistryAgrees hold p) (hstep : p.step env parseJson e = some p') :
    RegistryAgrees hold p' ↔ RegistersSameWork hold p e := by
  constructor
  · intro hagrees'
    exact hagrees'.registersSameWork hfacts (Pool.step_cases hstep)
  · intro hok
    exact hagrees.step sound hfacts hok (Pool.step_cases hstep)

/-- In every run the registrations of which are of the same work, held jobs agree with the
registry. -/
theorem registryAgrees_of_runsTo {hold : Holding} (sound : hold.Sound env parseJson)
    {es : List Event} {p : Pool}
    (h : (poolMachine env parseJson).RunsTo (RegistersSameWork hold) es p) :
    RegistryAgrees hold p := by
  induction h with
  | nil =>
    intro s x id held job hx
    cases hx
  | snoc run ok step ih =>
    exact (registryAgrees_step_iff sound (jobFacts_of_runsTo run) ih step).mpr ok

/-! ## The job a miner works on -/

/-- A session that is not about to notify its miner of another job goes by the id of the last one it
notified it of. -/
def Session.working : Holding := fun x =>
  match x.pc with
  | .ended => none
  | pc =>
    match pc.notifying with
    | some _ => none
    | none => x.notified.getLast?.map fun job => (job.jobId, job)

theorem Session.working_eq_some {x : Session} {id : String} {held : Job} :
    working x = some (id, held) ↔
      x.pc ≠ .ended ∧ x.pc.notifying = none ∧ x.notified.getLast? = some held ∧
        id = held.jobId := by
  rw [working]
  split
  · next hpc => simp [hpc]
  · next hpc =>
    split
    · next hnotifying => simp [hnotifying]
    · next hnotifying =>
      simp only [Option.map_eq_some_iff, Prod.mk.injEq, hnotifying]
      constructor
      · rintro ⟨job, hlast, rfl, rfl⟩
        exact ⟨hpc, trivial, hlast, rfl⟩
      · rintro ⟨-, -, hlast, rfl⟩
        exact ⟨held, hlast, rfl, rfl⟩

theorem Session.working_sound : Holding.Sound env parseJson working where
  new := rfl
  receiver := rfl
  registering hpc := by simp [working, hpc, SessionPc.notifying]
  step := by
    intro shared shared' x x' e id held hfacts hstep hheld
    rw [working_eq_some] at hheld ⊢
    obtain ⟨hended, hnotifying, hlast, rfl⟩ := hheld
    cases hstep with
    | registered pc =>
      right
      intro job hget
      have hlast' := hfacts.registering _ pc
      have hclean := (hfacts.notifying _ (by rw [pc]; rfl)).cleanJobs
      rw [hlast'] at hlast
      cases hlast
      dsimp only at hget
      rw [ActiveJobRegistry.getJob_register_of_clean _ hclean, if_pos rfl] at hget
      cases hget
      rfl
    | arrive | peerClose | readPending | readBlank | recvLagged | recvSkip =>
      exact .inl ⟨hended, hnotifying, hlast, rfl⟩
    | wroteNext pc => exact .inl ⟨by simp [pc], by rwa [pc], hlast, rfl⟩
    | readEnd | panicked | writeFailed => exact absurd rfl hended
    | recvNotify | wroteNotify => cases hnotifying
    | readInvalid pc | readDone pc | readAuthorize pc | readSubmit pc | authorized pc
    | notSubmitted pc | submitted pc | lookup pc | recorded pc | reported pc
    | reportedBlock pc | relookupNone pc | relookup pc | blockSubmitted pc | wroteResponse pc =>
      exact .inl ⟨by simp [pc], by simp [pc, SessionPc.notifying], hlast, rfl⟩

/-- The share a session is about to look the job up for. -/
def SessionPc.lookingUp : SessionPc → Option ShareSubmission
  | .submitting _ (.lookup share) => some share
  | _ => none

/-- A share whose id is that of the last job notified is validated against the work of that job, if
the lookup of `process_share` finds one. -/
def ValidatesAsNotified (p : Pool) : Prop :=
  ∀ x ∈ p.sessions, ∀ share ∈ x.pc.lookingUp, ∀ notified ∈ x.notified.getLast?,
    ∀ job ∈ p.shared.registry.getJob share.jobId, share.jobId = notified.jobId →
      job.SameWork notified

instance (p : Pool) : Decidable (ValidatesAsNotified p) :=
  inferInstanceAs (Decidable (∀ x ∈ p.sessions, ∀ share ∈ x.pc.lookingUp,
    ∀ notified ∈ x.notified.getLast?, ∀ job ∈ p.shared.registry.getJob share.jobId, _))

/-- In every run in which the jobs registered give the same work as those of the same id that the
miners of other sessions work on, shares are validated against the work the miner was sent. -/
theorem validatesAsNotified_of_runsTo {es : List Event} {p : Pool}
    (h : (poolMachine env parseJson).RunsTo (RegistersSameWork Session.working) es p) :
    ValidatesAsNotified p := by
  intro x hx share hshare notified hlast job hget hid
  obtain ⟨s, hs⟩ := List.mem_iff_getElem?.mp hx
  have hheld : Session.working x = some (share.jobId, notified) := by
    cases hpc : x.pc with
    | submitting id stage =>
      exact Session.working_eq_some.mpr ⟨by simp [hpc], by rw [hpc]; rfl, hlast, hid⟩
    | _ => rw [hpc] at hshare; cases hshare
  exact registryAgrees_of_runsTo Session.working_sound h s x share.jobId notified job hs hheld hget

/-- Two sessions on one template: the first one's share is validated against the job it was sent. -/
theorem validatesAsNotified_fixture : ∃ p,
    (poolMachine fixtureEnv fixtureJson).RunsTo (RegistersSameWork Session.working)
      ([.connect, .connect] ++ handshake 0 (fixtureTemplate []) ++
        handshake 1 (fixtureTemplate []) ++ sendLine 0 submitLine) p ∧ ValidatesAsNotified p := by
  have hrun : (((poolMachine fixtureEnv fixtureJson).guard (RegistersSameWork Session.working)).run
      ([.connect, .connect] ++ handshake 0 (fixtureTemplate []) ++
        handshake 1 (fixtureTemplate []) ++ sendLine 0 submitLine)).isSome = true := by
    decide +kernel
  obtain ⟨p, hp⟩ := Option.isSome_iff_exists.mp hrun
  have h := Machine.runsTo_of_run_guard hp
  exact ⟨p, h, validatesAsNotified_of_runsTo h⟩

/-- The second session is sent a refreshed template of the same height: the first one's share is
then validated against that one's job. -/
theorem not_validatesAsNotified_fixture : ∃ p,
    (poolMachine fixtureEnv fixtureJson).run ([.connect, .connect] ++
        handshake 0 (fixtureTemplate []) ++
        handshake 1 { fixtureTemplate [] with coinbasevalue := 5000000001 } ++
        sendLine 0 submitLine) = some p ∧ ¬ValidatesAsNotified p := by
  have hany : ((poolMachine fixtureEnv fixtureJson).run ([.connect, .connect] ++
      handshake 0 (fixtureTemplate []) ++
      handshake 1 { fixtureTemplate [] with coinbasevalue := 5000000001 } ++
      sendLine 0 submitLine)).any (fun p => decide (¬ValidatesAsNotified p)) = true := by
    decide +kernel
  obtain ⟨p, hp, hne⟩ := (Option.any_eq_true _ _).mp hany
  exact ⟨p, hp, of_decide_eq_true hne⟩

end AzcoinPool
