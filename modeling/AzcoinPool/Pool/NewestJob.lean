import AzcoinPool.Pool.JobAgreement

/-!
# The newest job

Every session registers every job it sends its miner, and a mapped job empties the registry first,
so what the registry has is the job registered last. That is the newest of the broadcast jobs that
were registered as long as no session registers an older one behind it: a step keeps the newest job
known just when it meets `KeepsNewest` (`newestKnown_step_iff`), and so does a run
(`newestKnown_iff`). A session that is slow to receive an old job takes the new one away from the
sessions that have it (`not_newestKnown_fixture`).
-/

namespace AzcoinPool

variable {env : PoolEnv} {parseJson : String → Option Sv1Request}

/-! ## Registered jobs -/

/-- The jobs a session has registered: those its miner was sent, up to the one it is registering. -/
def Session.registeredJobs (x : Session) : List Job :=
  match x.pc with
  | .registering _ => x.notified.dropLast
  | _ => x.notified

theorem Session.registeredJobs_of_not_registering (x : Session)
    (h : x.pc.registeringJob = none) :
    x.registeredJobs = x.notified := by
  unfold registeredJobs
  split
  · next hpc => rw [hpc] at h; cases h
  · rfl

/-- A registering session goes on by having registered its job. -/
theorem Session.StepTo.registeredJobs_of_registering {shared shared' : Shared} {x x' : Session}
    {job : Job} (hfacts : x.JobFacts env) (hpc : x.pc = .registering job)
    (h : StepTo env parseJson shared x .proceed shared' x') :
    x'.registeredJobs = x.registeredJobs ++ [job] := by
  have hbefore : x.registeredJobs = x.notified.dropLast := by
    unfold registeredJobs
    rw [hpc]
  cases h with
  | registered pc =>
    rw [hbefore]
    exact (List.dropLast_append_getLast? job (hfacts.registering job hpc)).symm
  | lookup pc | recorded pc | reported pc _ | reportedBlock pc | relookupNone pc _
  | relookup pc _ =>
    rw [hpc] at pc
    cases pc

/-- No other step registers a job. -/
theorem Session.StepTo.registeredJobs_eq {shared shared' : Shared} {x x' : Session}
    {e : SessionEvent} (hpc : e = .proceed → x.pc.registeringJob = none)
    (h : StepTo env parseJson shared x e shared' x') :
    x'.registeredJobs = x.registeredJobs ∧ shared'.registry = shared.registry := by
  cases h with
  | registered pc => rw [pc] at hpc; cases hpc rfl
  | arrive | peerClose => exact ⟨rfl, rfl⟩
  | wroteNotify pc => exact ⟨by simp [registeredJobs, pc], rfl⟩
  | readPending pc | readEnd pc | readBlank pc | readInvalid pc | readDone pc | readAuthorize pc
  | readSubmit pc | recvLagged pc | recvSkip pc | recvNotify pc | authorized pc | notSubmitted pc
  | panicked pc | submitted pc | lookup pc | recorded pc | reported pc | reportedBlock pc
  | relookupNone pc | relookup pc | blockSubmitted pc | wroteNext pc | wroteResponse pc
  | writeFailed pc =>
    refine ⟨?_, rfl⟩
    rw [x.registeredJobs_of_not_registering (by rw [pc]; rfl)]
    refine registeredJobs_of_not_registering _ ?_
    simp [Option.eq_none_iff_forall_ne_some, SessionPc.registeringJob_eq_some, finish, pc]

namespace Pool

/-- The ids under which a job was registered. -/
def registeredIds (p : Pool) : List String :=
  p.sessions.flatMap fun x => x.registeredJobs.map (·.jobId)

theorem mem_registeredIds {p : Pool} {id : String} :
    id ∈ p.registeredIds ↔
      ∃ (s : Nat) (x : Session), p.sessions[s]? = some x ∧
        ∃ job ∈ x.registeredJobs, job.jobId = id := by
  simp only [registeredIds, List.mem_flatMap, List.mem_map]
  constructor
  · rintro ⟨x, hx, job, hjob, hid⟩
    obtain ⟨s, hs⟩ := List.mem_iff_getElem?.mp hx
    exact ⟨s, x, hs, job, hjob, hid⟩
  · rintro ⟨s, x, hx, job, hjob, hid⟩
    exact ⟨x, List.mem_of_getElem? hx, job, hjob, hid⟩

/-- What a session registers in its step comes to what was registered. -/
theorem mem_registeredIds_set {p : Pool} {s : Nat} {x x' : Session} (shared : Shared)
    {added : List Job} (get : p.sessions[s]? = some x)
    (hadded : x'.registeredJobs = x.registeredJobs ++ added) (id : String) :
    id ∈ registeredIds { p with shared := shared, sessions := p.sessions.set s x' } ↔
      id ∈ p.registeredIds ∨ ∃ job ∈ added, job.jobId = id := by
  rw [mem_registeredIds, mem_registeredIds]
  have hself : (p.sessions.set s x')[s]? = some x' := by
    rw [List.getElem?_set_self (List.getElem?_eq_some_iff.mp get).1]
  constructor
  · rintro ⟨t, y, hy, job, hjob, hid⟩
    rcases set_eq_some hy with ⟨-, rfl⟩ | ⟨-, hy⟩
    · rw [hadded, List.mem_append] at hjob
      rcases hjob with hjob | hjob
      · exact .inl ⟨s, x, get, job, hjob, hid⟩
      · exact .inr ⟨job, hjob, hid⟩
    · exact .inl ⟨t, y, hy, job, hjob, hid⟩
  · rintro (⟨t, y, hy, job, hjob, hid⟩ | ⟨job, hjob, hid⟩)
    · by_cases hst : t = s
      · subst hst
        obtain rfl : x = y := Option.some.inj (get.symm.trans hy)
        exact ⟨t, x', hself, job, by rw [hadded]; exact List.mem_append_left _ hjob, hid⟩
      · exact ⟨t, y, by rw [List.getElem?_set_ne (Ne.symm hst)]; exact hy, job, hjob, hid⟩
    · exact ⟨s, x', hself, job, by rw [hadded]; exact List.mem_append_right _ hjob, hid⟩

/-- A broadcast registers nothing. -/
theorem mem_registeredIds_broadcast {p : Pool} {poller : Poller} {job : Job} {id : String} :
    id ∈ registeredIds { p with poller := poller, sessions := broadcast p.sessions job } ↔
      id ∈ p.registeredIds := by
  unfold registeredIds broadcast
  rw [List.flatMap_map]
  refine iff_of_eq (congrArg (id ∈ List.flatMap · p.sessions) (funext fun x => ?_))
  split <;> rfl

theorem mem_registeredIds_connect {p : Pool} {id : String} :
    id ∈ registeredIds { p with sessions := p.sessions ++ [{}] } ↔ id ∈ p.registeredIds := by
  simp [registeredIds, Session.registeredJobs]

end Pool

/-! ## The newest registered job -/

/-- Of the broadcast jobs that were registered the job is the newest; `later` were broadcast behind
it. -/
structure Pool.IsNewest (p : Pool) (job : Job) (later : List Job) : Prop where
  broadcast : job :: later <:+ p.poller.broadcast
  registered : job.jobId ∈ p.registeredIds
  later : ∀ k ∈ later, k.jobId ∉ p.registeredIds

/-- No share for the newest registered job is one for an unknown job. -/
def NewestKnown (env : PoolEnv) (p : Pool) : Prop :=
  ∀ (job : Job) (later : List Job), p.IsNewest job later → ∀ share : ShareSubmission,
    share.jobId = job.jobId →
      (env.shareProcessor.processShare p.shared.registry p.shared.records share).1.kind ≠
        .unknownJob

/-- A share is one for an unknown job only if the registry does not have its job. -/
theorem kind_eq_unknownJob {env : PoolEnv} {registry : ActiveJobRegistry} {records : ShareRecords}
    {share : ShareSubmission}
    (h : (env.shareProcessor.processShare registry records share).1.kind = .unknownJob) :
    registry.getJob share.jobId = none := by
  unfold PoolEnv.shareProcessor at h
  rw [processShare_kind, shareKind] at h
  split at h
  · cases h
  · split at h
    · next hget => exact hget
    · dsimp only at h
      split at h
      · cases h
      · split at h
        · cases h
        · split at h <;> cases h

/-- The newest registered job is known just when the registry has it. -/
theorem newestKnown_iff_contains {p : Pool} :
    NewestKnown env p ↔
      ∀ job later, p.IsNewest job later → p.shared.registry.contains job.jobId = true := by
  constructor
  · intro h job later hnewest
    by_contra hcontains
    have hget : p.shared.registry.getJob job.jobId = none := by
      simpa [ActiveJobRegistry.contains, ActiveJobRegistry.getJob] using hcontains
    -- a share without a context gets to the lookup
    let share : ShareSubmission := { fixtureShare job.jobId with validationContext := none }
    have hresult : (env.shareProcessor.processShare p.shared.registry p.shared.records share).1 =
        env.shareProcessor.judge (p.shared.registry.getJob job.jobId) share := rfl
    refine h job later hnewest share rfl ?_
    rw [hresult, hget]
    rfl
  · intro h job later hnewest share hid hkind
    have hnone := kind_eq_unknownJob hkind
    have hsome := h job later hnewest
    rw [hid] at hnone
    rw [ActiveJobRegistry.contains, ← ActiveJobRegistry.getJob, hnone] at hsome
    cases hsome

/-- The condition: a job is registered only if it is no older than the newest registered one, and a
job that is broadcast behind its registration is still in the registry. -/
def KeepsNewest (env : PoolEnv) (p : Pool) : Event → Prop
  | .poll template =>
    ∀ job ∈ env.currentJob template, p.poller.isNew job = true → job.jobId ∈ p.registeredIds →
      p.shared.registry.contains job.jobId = true
  | e =>
    ∀ r ∈ p.registration e, ∀ newest later, p.IsNewest newest later →
      r.2.jobId ∈ (newest :: later).map (·.jobId)

/-- Behind a registration the registry has the job registered and nothing else. -/
theorem newestKnown_register_iff {p p' : Pool} {job : Job}
    (hclean : job.cleanJobs = true)
    (hregistry : p'.shared.registry = p.shared.registry.register job)
    (hbroadcast : p'.poller.broadcast = p.poller.broadcast)
    (hids : ∀ {id : String}, id ∈ p'.registeredIds ↔ id ∈ p.registeredIds ∨ job.jobId = id) :
    NewestKnown env p' ↔ ∀ newest later, p.IsNewest newest later →
      job.jobId ∈ (newest :: later).map (·.jobId) := by
  have hcontains : ∀ id, p'.shared.registry.contains id = true ↔ id = job.jobId := by
    intro id
    rw [hregistry, ActiveJobRegistry.contains, ← ActiveJobRegistry.getJob,
      ActiveJobRegistry.getJob_register_of_clean _ hclean]
    split
    · next hid => simp [hid]
    · next hid => simp [hid]
  rw [newestKnown_iff_contains]
  constructor
  · intro hknown newest later hnewest
    by_contra hmem
    rw [List.map_cons, List.mem_cons, not_or] at hmem
    obtain ⟨hne, hlater⟩ := hmem
    refine hne ((hcontains _).mp (hknown newest later ⟨?_, ?_, ?_⟩)).symm
    · rw [hbroadcast]
      exact hnewest.broadcast
    · exact hids.mpr (.inl hnewest.registered)
    · intro k hk hid
      rcases hids.mp hid with hid | hid
      · exact hnewest.later k hk hid
      · exact hlater (List.mem_map.mpr ⟨k, hk, hid.symm⟩)
  · intro hkeeps newest later hnewest
    rw [hcontains]
    rcases hids.mp hnewest.registered with hid | hid
    · have hlater : ∀ k ∈ later, k.jobId ∉ p.registeredIds ∧ job.jobId ≠ k.jobId := by
        intro k hk
        have hnot := hnewest.later k hk
        rw [hids, not_or] at hnot
        exact hnot
      have hmem := hkeeps newest later
        ⟨hbroadcast ▸ hnewest.broadcast, hid, fun k hk => (hlater k hk).1⟩
      rw [List.map_cons, List.mem_cons] at hmem
      rcases hmem with hmem | hmem
      · exact hmem.symm
      · obtain ⟨k, hk, hkid⟩ := List.mem_map.mp hmem
        exact absurd hkid.symm (hlater k hk).2
    · exact hid.symm

/-- Behind a broadcast the newest registered job is the job broadcast, if it was registered before,
and else the one it was. -/
theorem newestKnown_send_iff {p p' : Pool} {job : Job} (hknown : NewestKnown env p)
    (hregistry : p'.shared.registry = p.shared.registry)
    (hbroadcast : p'.poller.broadcast = p.poller.broadcast ++ [job])
    (hids : ∀ {id : String}, id ∈ p'.registeredIds ↔ id ∈ p.registeredIds) :
    NewestKnown env p' ↔
      (job.jobId ∈ p.registeredIds → p.shared.registry.contains job.jobId = true) := by
  rw [newestKnown_iff_contains] at hknown ⊢
  rw [hregistry]
  constructor
  · intro hknown' hid
    refine hknown' job [] ⟨?_, hids.mpr hid, by simp⟩
    rw [hbroadcast]
    exact List.suffix_append _ _
  · intro hkeeps newest later hnewest
    have hsuffix := hnewest.broadcast
    rw [hbroadcast, List.suffix_concat_iff] at hsuffix
    rcases hsuffix with hnil | ⟨t, ht, hsuffix⟩
    · cases hnil
    · cases t with
      | nil =>
        cases ht
        exact hkeeps (hids.mp hnewest.registered)
      | cons first t =>
        cases ht
        refine hknown newest t ⟨hsuffix, hids.mp hnewest.registered, fun k hk => ?_⟩
        rw [← hids]
        exact hnewest.later k (List.mem_append_left _ hk)

/-- A step that leaves the registry, the broadcast jobs and the registered ones alone keeps the
newest job known. -/
theorem NewestKnown.of_same {p p' : Pool} (hknown : NewestKnown env p)
    (hregistry : p'.shared.registry = p.shared.registry)
    (hbroadcast : p'.poller.broadcast = p.poller.broadcast)
    (hids : ∀ {id : String}, id ∈ p'.registeredIds ↔ id ∈ p.registeredIds) :
    NewestKnown env p' := by
  rw [newestKnown_iff_contains] at hknown ⊢
  rw [hregistry]
  intro newest later hnewest
  refine hknown newest later ⟨hbroadcast ▸ hnewest.broadcast, hids.mp hnewest.registered, ?_⟩
  intro k hk
  rw [← hids]
  exact hnewest.later k hk

/-- A step keeps the newest job known just when it meets the condition. -/
theorem newestKnown_step_iff {p p' : Pool} {e : Event}
    (hfacts : ∀ {s : Nat} {x : Session}, p.sessions[s]? = some x → x.JobFacts env)
    (hknown : NewestKnown env p) (hstep : p.step env parseJson e = some p') :
    NewestKnown env p' ↔ KeepsNewest env p e := by
  cases Pool.step_cases hstep with
  | pollNothing current => simp [KeepsNewest, current, hknown]
  | pollSame current same => simp [KeepsNewest, current, same, hknown]
  | pollNew current new =>
    rw [newestKnown_send_iff hknown (by rfl) (by rfl) Pool.mem_registeredIds_broadcast]
    simp [KeepsNewest, current, new]
  | connect =>
    have hknown' : NewestKnown env { p with sessions := p.sessions ++ [{}] } :=
      hknown.of_same rfl rfl Pool.mem_registeredIds_connect
    simp [KeepsNewest, Pool.registration, hknown']
  | @session s e x x' shared get step =>
    cases hreg : p.registration (.session s e) with
    | some r =>
      obtain ⟨t, job⟩ := r
      obtain ⟨heq, y, hy, hpc⟩ := Pool.registration_eq_some.mp hreg
      cases heq
      obtain rfl : x = y := Option.some.inj (get.symm.trans hy)
      have hclean := ((hfacts get).notifying job (by rw [hpc]; rfl)).cleanJobs
      have hadded := step.registeredJobs_of_registering (hfacts get) hpc
      rw [newestKnown_register_iff hclean (step.of_registering hpc) (by rfl) fun {id} => by
        simpa using Pool.mem_registeredIds_set shared get hadded id]
      simp [KeepsNewest, hreg]
    | none =>
      have hpc : e = .proceed → x.pc.registeringJob = none := by
        rintro rfl
        refine Option.eq_none_iff_forall_ne_some.mpr fun job hjob => ?_
        rw [Pool.registration_eq_some.mpr
          ⟨rfl, x, get, SessionPc.registeringJob_eq_some.mp hjob⟩] at hreg
        cases hreg
      obtain ⟨hjobs, hregistry⟩ := step.registeredJobs_eq hpc
      have hadded : x'.registeredJobs = x.registeredJobs ++ [] := by rw [hjobs, List.append_nil]
      have hknown' : NewestKnown env
          { p with shared := shared, sessions := p.sessions.set s x' } :=
        hknown.of_same hregistry rfl fun {id} => by
          simpa using Pool.mem_registeredIds_set shared get hadded id
      simp [KeepsNewest, hreg, hknown']

/-- In a run the newest registered job is known throughout just when every step meets the
condition. -/
theorem newestKnown_iff {es : List Event} {p : Pool} :
    (poolMachine env parseJson).RunsTo
        ((poolMachine env parseJson).LeadsTo (NewestKnown env)) es p ↔
      (poolMachine env parseJson).RunsTo (KeepsNewest env) es p := by
  refine Machine.runsTo_leadsTo_iff ?_ fun run hknown hstep =>
    newestKnown_step_iff (jobFacts_of_runsTo run) hknown hstep
  intro job later hnewest
  cases List.eq_nil_of_suffix_nil hnewest.broadcast

/-- Two sessions work on one job and two others are broadcast; the one session receives both before
the other one receives the first. The newest job is then unknown. -/
theorem not_newestKnown_fixture : ∃ p,
    (poolMachine fixtureEnv fixtureJson).run ([.connect, .connect] ++
      handshake 0 (templateAt 100) ++ handshake 1 (templateAt 100) ++
      [.poll (.ok (some (templateAt 101)))] ++ [.poll (.ok (some (templateAt 102)))] ++
      receive 0 ++ receive 0 ++ receive 1) = some p ∧
    (p.poller.broadcast.map (·.jobId)).Nodup ∧ (∀ job ∈ p.poller.broadcast, job.cleanJobs = true) ∧
    ¬NewestKnown fixtureEnv p := by
  have hany : ((poolMachine fixtureEnv fixtureJson).run ([.connect, .connect] ++
      handshake 0 (templateAt 100) ++ handshake 1 (templateAt 100) ++
      [.poll (.ok (some (templateAt 101)))] ++ [.poll (.ok (some (templateAt 102)))] ++
      receive 0 ++ receive 0 ++ receive 1)).any (fun p =>
        decide ((p.poller.broadcast.map (·.jobId)).Nodup ∧
          ∀ job ∈ p.poller.broadcast, job.cleanJobs = true) &&
        p.poller.broadcast.getLast?.any fun job =>
          decide (job.jobId ∈ p.registeredIds ∧ p.shared.registry.contains job.jobId = false)) =
      true := by
    decide +kernel
  obtain ⟨p, hp, hany⟩ := (Option.any_eq_true _ _).mp hany
  rw [Bool.and_eq_true] at hany
  obtain ⟨hjobs, hany⟩ := hany
  obtain ⟨hnodup, hclean⟩ := of_decide_eq_true hjobs
  obtain ⟨job, hlast, hprops⟩ := (Option.any_eq_true _ _).mp hany
  obtain ⟨hregistered, hcontains⟩ := of_decide_eq_true hprops
  refine ⟨p, hp, hnodup, hclean, fun hknown => ?_⟩
  rw [newestKnown_iff_contains] at hknown
  have hsuffix : [job] <:+ p.poller.broadcast := by
    rw [← List.dropLast_append_getLast? job hlast]
    exact List.suffix_append _ _
  have hcontains' := hknown job [] ⟨hsuffix, hregistered, by simp⟩
  rw [hcontains] at hcontains'
  cases hcontains'

end AzcoinPool
