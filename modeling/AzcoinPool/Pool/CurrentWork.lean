import AzcoinPool.Pool.Polling

/-!
# The current work of a miner

The poller broadcasts a job when it changes and a session drops what it receives before it is
authorized, so that a session has the current work from its own fetch or from its queue
(`Session.Served`). It keeps it, and its miner gets it, as long as an authorization without a job
comes while the job is still in the queue, the job of a poll that is not broadcast is the one
before, and a job that is skipped was sent (`KeepsCurrent`, `hasCurrentWork_of_runsTo`). When a job
is known by its id and the heights of the fetched jobs never decrease, the first of the three is all
it takes (`keepsCurrent_of_ordered`). A session that is authorized without a job behind the
broadcast has none (`not_hasCurrentWork_fixture`).
-/

namespace AzcoinPool

variable {env : PoolEnv} {parseJson : String → Option Sv1Request}

/-! ## What the poller observed -/

/-- What counts as the same job: the job as a value, or any job with its id. -/
inductive JobIdentity where
  | value
  | jobId

def JobIdentity.Same : JobIdentity → Job → Job → Prop
  | value, a, b => a = b
  | jobId, a, b => a.jobId = b.jobId

theorem JobIdentity.same_refl (identity : JobIdentity) (a : Job) : identity.Same a a := by
  cases identity <;> rfl

theorem JobIdentity.Same.trans {identity : JobIdentity} {a b c : Job} (h : identity.Same a b)
    (h' : identity.Same b c) : identity.Same a c := by
  cases identity with
  | value => exact Eq.trans h h'
  | jobId => exact Eq.trans h h'

instance (identity : JobIdentity) (a b : Job) : Decidable (identity.Same a b) :=
  match identity with
  | .value => inferInstanceAs (Decidable (a = b))
  | .jobId => inferInstanceAs (Decidable (a.jobId = b.jobId))

/-- What the poller observed and what the sessions fetched behind it. -/
structure Watch where
  /-- The job of the poller's last turn. -/
  observed : Option Job := none
  /-- The jobs fetched by sessions since that one was returned to the poller. -/
  since : List Job := []
  /-- The jobs fetched by sessions since a job was last returned to the poller. -/
  sinceAnswer : List Job := []

def Watch.record (env : PoolEnv) (s : Polling) (e : PollingEvent) (w : Watch) : Watch :=
  match e with
  | .turned => { w with observed := s.pending, since := w.sinceAnswer }
  | e =>
    match s.fetch env e with
    | none => w
    | some ⟨.poller, _⟩ => { w with sinceAnswer := [] }
    | some ⟨.session _, job⟩ =>
      { w with since := w.since ++ [job], sinceAnswer := w.sinceAnswer ++ [job] }

/-- The pool with a watch on the poller. -/
def watchMachine (env : PoolEnv) (parseJson : String → Option Sv1Request) :
    Machine (Polling × Watch) PollingEvent :=
  (pollingMachine env parseJson).track {} (Watch.record env)

theorem Watch.record_of_ne_turned (env : PoolEnv) (s : Polling) {e : PollingEvent}
    (he : e ≠ .turned) (w : Watch) :
    (w.record env s e).observed = w.observed ∧ ∀ job ∈ w.since, job ∈ (w.record env s e).since := by
  unfold record
  split
  · exact absurd rfl he
  · split
    · exact ⟨rfl, fun _ => id⟩
    · exact ⟨rfl, fun _ => id⟩
    · exact ⟨rfl, fun _ => List.mem_append_left _⟩

theorem Watch.mem_since_record {s : Polling} {e : PollingEvent} {i : Nat} {job : Job}
    (h : s.fetch env e = some ⟨.session i, job⟩) (w : Watch) : job ∈ (w.record env s e).since := by
  unfold record
  split
  · cases h
  · rw [h]
    exact List.mem_append_right _ (List.mem_singleton_self job)

/-- The job is the observed one or was fetched behind it. -/
def Watch.Current (identity : JobIdentity) (w : Watch) (observed job : Job) : Prop :=
  identity.Same job observed ∨ job ∈ w.since

instance (identity : JobIdentity) (w : Watch) (observed job : Job) :
    Decidable (w.Current identity observed job) :=
  inferInstanceAs (Decidable (_ ∨ _))

/-- A session of an authorized worker that waits in `select!` with nothing to receive has sent its
miner the job the poller observed last or one fetched behind it. -/
def HasCurrentWork (identity : JobIdentity) (s : Polling × Watch) : Prop :=
  ∀ observed ∈ s.2.observed, ∀ x ∈ s.1.pool.sessions, x.pc = .select →
    x.state.authorizedWorker ≠ none → x.receiver.queue = [] →
      ∃ job ∈ x.notified, s.2.Current identity observed job

/-! ## The condition -/

/-- A worker is first authorized without a job only while the session has the observed job to
receive. -/
def AuthorizesWithWork (env : PoolEnv) (identity : JobIdentity) (s : Polling × Watch) :
    PollingEvent → Prop
  | .other (.session i (.currentJob template)) =>
    env.currentJob template = none → ∀ x ∈ s.1.pool.sessions[i]?, x.state.authorizedWorker = none →
      ∀ observed ∈ s.2.observed, ∃ job ∈ x.receiver.queue, identity.Same job observed
  | _ => True

/-- While workers are authorized, a job that is not broadcast is the same as the observed one and as
those fetched between the two. -/
def ObservesSame (identity : JobIdentity) (s : Polling × Watch) : PollingEvent → Prop
  | .turned =>
    ∀ job ∈ s.1.pending, s.1.pool.poller.isNew job = false →
      (∃ x ∈ s.1.pool.sessions, x.state.authorizedWorker ≠ none) →
        ∀ observed ∈ s.2.observed, identity.Same observed job ∧
          ∀ fetched ∈ s.2.since, identity.Same fetched job ∨ fetched ∈ s.2.sinceAnswer
  | _ => True

/-- The observed job is skipped for its id only if the job its miner was sent last is that job or
was fetched behind it. -/
def SkipsSent (identity : JobIdentity) (s : Polling × Watch) : PollingEvent → Prop
  | .other (.session i .pollRecv) =>
    ∀ x ∈ s.1.pool.sessions[i]?, x.receiver.missed = 0 → ∀ job ∈ x.receiver.queue.head?,
      x.state.authorizedWorker ≠ none → x.state.lastNotifyJobId = some job.jobId →
        ∀ observed ∈ s.2.observed, identity.Same job observed →
          ∃ last ∈ x.notified.getLast?, s.2.Current identity observed last
  | _ => True

structure KeepsCurrent (env : PoolEnv) (identity : JobIdentity) (s : Polling × Watch)
    (e : PollingEvent) : Prop where
  authorizes : AuthorizesWithWork env identity s e
  observes : ObservesSame identity s e
  skips : SkipsSent identity s e

instance (env : PoolEnv) (identity : JobIdentity) (s : Polling × Watch) :
    ∀ e, Decidable (AuthorizesWithWork env identity s e)
  | .other (.session i (.currentJob template)) =>
    inferInstanceAs (Decidable (env.currentJob template = none → ∀ x ∈ s.1.pool.sessions[i]?,
      x.state.authorizedWorker = none → ∀ observed ∈ s.2.observed,
        ∃ job ∈ x.receiver.queue, identity.Same job observed))
  | .answered _ | .turned | .other (.poll _) | .other .connect | .other (.session _ (.arrive _))
  | .other (.session _ .peerClose) | .other (.session _ .pollRead)
  | .other (.session _ .pollRecv) | .other (.session _ .proceed)
  | .other (.session _ (.blockSubmitted _)) | .other (.session _ (.written _)) => isTrue trivial

instance (identity : JobIdentity) (s : Polling × Watch) :
    ∀ e, Decidable (ObservesSame identity s e)
  | .turned =>
    inferInstanceAs (Decidable (∀ job ∈ s.1.pending, s.1.pool.poller.isNew job = false →
      (∃ x ∈ s.1.pool.sessions, x.state.authorizedWorker ≠ none) →
        ∀ observed ∈ s.2.observed, identity.Same observed job ∧
          ∀ fetched ∈ s.2.since, identity.Same fetched job ∨ fetched ∈ s.2.sinceAnswer))
  | .answered _ | .other _ => isTrue trivial

instance (identity : JobIdentity) (s : Polling × Watch) : ∀ e, Decidable (SkipsSent identity s e)
  | .other (.session i .pollRecv) =>
    inferInstanceAs (Decidable (∀ x ∈ s.1.pool.sessions[i]?, x.receiver.missed = 0 →
      ∀ job ∈ x.receiver.queue.head?, x.state.authorizedWorker ≠ none →
        x.state.lastNotifyJobId = some job.jobId → ∀ observed ∈ s.2.observed,
          identity.Same job observed →
            ∃ last ∈ x.notified.getLast?, s.2.Current identity observed last))
  | .answered _ | .turned | .other (.poll _) | .other .connect | .other (.session _ (.arrive _))
  | .other (.session _ .peerClose) | .other (.session _ .pollRead)
  | .other (.session _ (.currentJob _)) | .other (.session _ .proceed)
  | .other (.session _ (.blockSubmitted _)) | .other (.session _ (.written _)) => isTrue trivial

instance (env : PoolEnv) (identity : JobIdentity) (s : Polling × Watch) (e : PollingEvent) :
    Decidable (KeepsCurrent env identity s e) :=
  decidable_of_iff (AuthorizesWithWork env identity s e ∧ ObservesSame identity s e ∧
      SkipsSent identity s e)
    ⟨fun ⟨h₁, h₂, h₃⟩ => ⟨h₁, h₂, h₃⟩, fun h => ⟨h.1, h.2, h.3⟩⟩

/-! ## Served sessions -/

/-- The session of an authorized worker has sent the current work, is sending it, or is to receive
it. -/
def Session.Served (identity : JobIdentity) (w : Watch) (x : Session) : Prop :=
  x.pc.isEnded = false → x.state.authorizedWorker ≠ none → ∀ observed ∈ w.observed,
    (∃ job ∈ x.notified ++ x.pc.writingJob.toList, w.Current identity observed job) ∨
      ∃ job ∈ x.receiver.queue, identity.Same job observed

namespace Session.Served

variable {identity : JobIdentity} {w w' : Watch} {x x' : Session}

/-- A served session stays so while what it has sent or has to receive stays. -/
theorem mono (h : x.Served identity w) (hended : x'.pc.isEnded = false → x.pc.isEnded = false)
    (hworker : x'.state.authorizedWorker ≠ none → x.state.authorizedWorker ≠ none)
    (hobserved : w'.observed = w.observed) (hsince : ∀ job ∈ w.since, job ∈ w'.since)
    (hsent : ∀ job ∈ x.notified ++ x.pc.writingJob.toList,
      job ∈ x'.notified ++ x'.pc.writingJob.toList)
    (hqueue : ∀ job ∈ x.receiver.queue, job ∈ x'.receiver.queue ∨
      job ∈ x'.notified ++ x'.pc.writingJob.toList) : x'.Served identity w' := by
  intro hopen hauth observed hob
  rw [hobserved] at hob
  rcases h (hended hopen) (hworker hauth) observed hob with ⟨job, hjob, hsame | hmem⟩ |
    ⟨job, hjob, hsame⟩
  · exact .inl ⟨job, hsent job hjob, .inl hsame⟩
  · exact .inl ⟨job, hsent job hjob, .inr (hsince job hmem)⟩
  · rcases hqueue job hjob with hjob | hjob
    · exact .inr ⟨job, hjob, hsame⟩
    · exact .inl ⟨job, hjob, .inl hsame⟩

/-- What a session that writes no notification has sent stays sent. -/
theorem sent_of_silent (hsilent : x.pc.writingJob = none) (hnotified : x'.notified = x.notified) :
    ∀ job ∈ x.notified ++ x.pc.writingJob.toList,
      job ∈ x'.notified ++ x'.pc.writingJob.toList := by
  intro job hjob
  rw [hsilent, Option.toList_none, List.append_nil] at hjob
  rw [hnotified]
  exact List.mem_append_left _ hjob

/-- A step keeps a session served, if an authorization and a skipped job do. -/
theorem step {shared shared' : Shared} {e : SessionEvent} (h : x.Served identity w)
    (hstep : StepTo env parseJson shared x e shared' x') (hobserved : w'.observed = w.observed)
    (hsince : ∀ job ∈ w.since, job ∈ w'.since)
    (hfetched : ∀ {template : Except PoolError (Option BlockTemplate)} {id : Option Value}
      {username : String} {job : Job}, e = .currentJob template → x.pc = .authorizing id username →
        env.currentJob template = some job → job ∈ w'.since)
    (hauthorizes : ∀ {template : Except PoolError (Option BlockTemplate)},
      e = .currentJob template → env.currentJob template = none →
        x.state.authorizedWorker = none →
          ∀ observed ∈ w.observed, ∃ job ∈ x.receiver.queue, identity.Same job observed)
    (hskips : ∀ {job : Job} {receiver : Receiver}, e = .pollRecv →
      x.receiver.recv = some (.job job, receiver) → x.state.authorizedWorker ≠ none →
        x.state.lastNotifyJobId = some job.jobId →
          ∀ observed ∈ w.observed, identity.Same job observed →
            ∃ last ∈ x.notified.getLast?, w.Current identity observed last) :
    x'.Served identity w' := by
  have hcurrent : ∀ {observed job : Job}, w.Current identity observed job →
      w'.Current identity observed job := fun hcur => hcur.imp id (hsince _)
  cases hstep with
  | arrive | peerClose | readPending | readBlank =>
    exact h.mono id id hobserved hsince (fun _ => id) (fun _ => .inl)
  | readEnd | panicked | writeFailed => exact fun hopen => (by cases hopen)
  | readDone pc _ _ _ _ dispatch =>
    refine h.mono (fun _ => by rw [pc]; rfl) ?_ hobserved hsince
      (sent_of_silent (by rw [pc]; rfl) rfl) (fun _ => .inl)
    rcases dispatchRequest_eq_done dispatch with ⟨-, negotiated, rfl⟩ | ⟨-, -, rfl⟩ <;> exact id
  | recvLagged pc recv =>
    refine h.mono id id hobserved hsince (fun _ => id) fun job hjob => .inl ?_
    rcases Receiver.queue_of_recv recv with ⟨_, heq, -⟩ | ⟨-, hqueue⟩
    · cases heq
    · rwa [hqueue]
  | @recvSkip receiver job pc recv skip =>
    intro hopen hauth observed hob
    rw [hobserved] at hob
    dsimp only at hopen hauth
    rcases skip with hnone | hlast
    · exact absurd hnone hauth
    · rcases h hopen hauth observed hob with ⟨sent, hsent, hcur⟩ | ⟨k, hk, hsame⟩
      · exact .inl ⟨sent, hsent, hcurrent hcur⟩
      · rw [Receiver.queue_of_recv_job recv, List.mem_cons] at hk
        rcases hk with rfl | hk
        · obtain ⟨last, hmem, hcur⟩ := hskips rfl recv hauth hlast observed hob hsame
          exact .inl ⟨last, List.mem_append_left _ (List.mem_of_getLast? hmem), hcurrent hcur⟩
        · exact .inr ⟨k, hk, hsame⟩
  | @recvNotify receiver job pc recv _ _ =>
    refine h.mono (fun _ => by rw [pc]; rfl) id hobserved hsince
      (sent_of_silent (by rw [pc]; rfl) rfl) fun k hk => ?_
    rw [Receiver.queue_of_recv_job recv, List.mem_cons] at hk
    rcases hk with rfl | hk
    · exact .inr (by simp [SessionPc.writingJob])
    · exact .inl hk
  | @authorized template id username pc =>
    cases hjob : env.currentJob template with
    | none =>
      by_cases hworker : x.state.authorizedWorker = none
      · intro _ _ observed hob
        rw [hobserved] at hob
        exact .inr (hauthorizes rfl hjob hworker observed hob)
      · exact h.mono (fun _ => by rw [pc]; rfl) (fun _ => hworker) hobserved hsince
          (sent_of_silent (by rw [pc]; rfl) rfl) (fun _ => .inl)
    | some job =>
      intro _ _ observed _
      exact .inl ⟨job, by simp, .inr (hfetched rfl pc hjob)⟩
  | readInvalid pc | readAuthorize pc | readSubmit pc | notSubmitted pc | submitted pc | lookup pc
  | recorded pc | reported pc | reportedBlock pc | relookupNone pc | relookup pc
  | registered pc | blockSubmitted pc =>
    exact h.mono (fun _ => by rw [pc]; rfl) id hobserved hsince
      (sent_of_silent (by rw [pc]; rfl) rfl) (fun _ => .inl)
  | wroteNext pc | wroteResponse pc | wroteNotify pc =>
    exact h.mono (fun _ => by rw [pc]; rfl) id hobserved hsince
      (by simp [pc, SessionPc.writingJob]) (fun _ => .inl)

end Session.Served

/-! ## Runs -/

/-- The poller compares with the observed job. -/
structure Polling.Compares (s : Polling) (w : Watch) : Prop where
  lastJobId : s.pool.poller.lastJobId = (w.observed.map (·.jobId)).getD ""
  lastHeight : s.pool.poller.lastHeight = (w.observed.map (·.height)).getD 0

theorem Poller.isNew_eq_false {p : Poller} {job : Job} :
    p.isNew job = false ↔ job.jobId = p.lastJobId ∧ job.height = p.lastHeight := by
  simp [isNew]

theorem compares_of_runsTo {Ok : Polling × Watch → PollingEvent → Prop} {es : List PollingEvent}
    {s : Polling × Watch} (h : (watchMachine env parseJson).RunsTo Ok es s) : s.1.Compares s.2 := by
  refine h.invariant (fun s => s.1.Compares s.2) ⟨rfl, rfl⟩ ?_
  intro s e s' hcompares _ htrack
  obtain ⟨t, hstep, rfl⟩ := Option.map_eq_some_iff.mp htrack
  have hcases : Polling.StepTo env parseJson s.1 e t := Polling.step_cases hstep
  cases hcases with
  | turnedSame pending same =>
    obtain ⟨hid, hheight⟩ := Poller.isNew_eq_false.mp same
    exact ⟨by simp [Watch.record, pending, hid], by simp [Watch.record, pending, hheight]⟩
  | turnedNew pending new =>
    exact ⟨by simp [Watch.record, pending, Poller.send],
      by simp [Watch.record, pending, Poller.send]⟩
  | answered | connect | session =>
    constructor
    · dsimp only
      rw [(Watch.record_of_ne_turned env s.1 (by simp) s.2).1]
      exact hcompares.lastJobId
    · dsimp only
      rw [(Watch.record_of_ne_turned env s.1 (by simp) s.2).1]
      exact hcompares.lastHeight

/-- A job that the poller does not broadcast was observed before, as far as it compares. -/
theorem exists_observed {Ok : Polling × Watch → PollingEvent → Prop} {es : List PollingEvent}
    {s : Polling × Watch} (h : (watchMachine env parseJson).RunsTo Ok es s) {job : Job}
    (hpending : s.1.pending = some job) (hsame : s.1.pool.poller.isNew job = false) :
    ∃ observed, s.2.observed = some observed ∧ job.jobId = observed.jobId ∧
      job.height = observed.height := by
  have hcompares := compares_of_runsTo h
  obtain ⟨hid, hheight⟩ := Poller.isNew_eq_false.mp hsame
  rw [hcompares.lastJobId] at hid
  rw [hcompares.lastHeight] at hheight
  cases hobserved : s.2.observed with
  | none =>
    obtain ⟨template, htemplate⟩ := (exists_runsTo_pool h.of_track).2 job hpending
    rw [hobserved, (PoolEnv.isMapped_of_currentJob htemplate).jobId_eq] at hid
    exact absurd hid Nat.repr_ne_empty
  | some observed =>
    rw [hobserved] at hid hheight
    exact ⟨observed, rfl, hid, hheight⟩

/-- In every run that meets the condition the sessions are served. -/
theorem served_of_runsTo {identity : JobIdentity} {es : List PollingEvent} {s : Polling × Watch}
    (h : (watchMachine env parseJson).RunsTo (KeepsCurrent env identity) es s) {i : Nat}
    {x : Session} (hx : s.1.pool.sessions[i]? = some x) : x.Served identity s.2 := by
  induction h generalizing x with
  | nil => cases hx
  | @snoc es s s' e run ok step ih =>
    obtain ⟨t, hstep, rfl⟩ := Option.map_eq_some_iff.mp step
    have hcases : Polling.StepTo env parseJson s.1 e t := Polling.step_cases hstep
    dsimp only at hx ⊢
    cases hcases with
    | @answered template idle =>
      obtain ⟨hobserved, hsince⟩ :=
        Watch.record_of_ne_turned env s.1 (e := .answered template) (by simp) s.2
      exact (ih hx).mono id id hobserved hsince (fun _ => id) (fun _ => .inl)
    | @turnedSame job pending same =>
      intro hopen hworker observed hob
      obtain rfl : job = observed := Option.some.inj (pending.symm.trans hob)
      obtain ⟨last, hlast, -, -⟩ := exists_observed run pending same
      obtain ⟨hsame, hfetched⟩ := ok.observes job pending same
        ⟨x, List.mem_of_getElem? hx, hworker⟩ last hlast
      rcases ih hx hopen hworker last hlast with ⟨k, hk, hcur | hcur⟩ | ⟨k, hk, hcur⟩
      · exact .inl ⟨k, hk, .inl (hcur.trans hsame)⟩
      · exact .inl ⟨k, hk, hfetched k hcur⟩
      · exact .inr ⟨k, hk, hcur.trans hsame⟩
    | @turnedNew job pending new =>
      intro hopen hworker observed hob
      obtain rfl : job = observed := Option.some.inj (pending.symm.trans hob)
      obtain ⟨y, hy, rfl⟩ := Pool.broadcast_eq_some_of_open hx hopen
      exact .inr ⟨job, y.receiver.mem_push job, identity.same_refl job⟩
    | connect =>
      obtain ⟨hobserved, hsince⟩ :=
        Watch.record_of_ne_turned env s.1 (e := .other .connect) (by simp) s.2
      rcases Pool.connect_eq_some hx with hx | rfl
      · exact (ih hx).mono id id hobserved hsince (fun _ => id) (fun _ => .inl)
      · exact fun _ hworker => absurd rfl hworker
    | @session j e y y' shared get move =>
      obtain ⟨hobserved, hsince⟩ :=
        Watch.record_of_ne_turned env s.1 (e := .other (.session j e)) (by simp) s.2
      rcases Pool.set_eq_some hx with ⟨rfl, rfl⟩ | ⟨-, hx⟩
      · refine (ih get).step move hobserved hsince ?_ ?_ ?_
        · rintro template id username job rfl hpc hjob
          exact Watch.mem_since_record
            ((Polling.fetch_session get).mpr ⟨template, id, username, rfl, hpc, rfl, hjob⟩) s.2
        · rintro template rfl hnone hworker
          exact ok.authorizes hnone y get hworker
        · rintro job receiver rfl hrecv hworker hlast observed hob hsame
          obtain ⟨hmissed, hhead⟩ := Receiver.head_of_recv hrecv
          exact ok.skips y get hmissed job hhead hworker hlast observed hob hsame
      · exact (ih hx).mono id id hobserved hsince (fun _ => id) (fun _ => .inl)

/-- In every run that meets the condition, a session of an authorized worker that waits with nothing
to receive has sent its miner the current work. -/
theorem hasCurrentWork_of_runsTo {identity : JobIdentity} {es : List PollingEvent}
    {s : Polling × Watch}
    (h : (watchMachine env parseJson).RunsTo (KeepsCurrent env identity) es s) :
    HasCurrentWork identity s := by
  intro observed hob x hx hpc hworker hqueue
  obtain ⟨i, hi⟩ := List.mem_iff_getElem?.mp hx
  rcases served_of_runsTo h hi (by rw [hpc]; rfl) hworker observed hob with ⟨job, hjob, hcur⟩ |
    ⟨job, hjob, -⟩
  · refine ⟨job, ?_, hcur⟩
    rw [hpc] at hjob
    simpa [SessionPc.writingJob] using hjob
  · rw [hqueue] at hjob
    cases hjob

/-- A session of an authorized worker waits in `select!` with nothing to receive. -/
def Session.isIdle (x : Session) : Bool :=
  match x.pc with
  | .select => x.state.authorizedWorker.isSome && x.receiver.queue.isEmpty
  | _ => false

theorem Session.isIdle_iff {x : Session} : x.isIdle = true ↔
    x.pc = .select ∧ x.state.authorizedWorker ≠ none ∧ x.receiver.queue = [] := by
  unfold isIdle
  split
  · next hpc =>
    simp only [hpc, Bool.and_eq_true, List.isEmpty_iff, true_and, and_congr_left_iff]
    intro _
    exact Option.isSome_iff_ne_none
  · next hpc =>
    simp only [Bool.false_eq_true, false_iff]
    exact fun h => hpc h.1

/-- A session fetches the observed job, and is broadcast the next one. -/
theorem hasCurrentWork_fixture : ∃ s,
    (watchMachine fixtureEnv fixtureJson).RunsTo (KeepsCurrent fixtureEnv .value)
      (others [.connect] ++ pollTurn (templateAt 100) ++ others (handshake 0 (templateAt 100)) ++
        others [.session 0 .pollRecv] ++ pollTurn (templateAt 101) ++ others (receive 0)) s ∧
    s.1.pool.sessions.any Session.isIdle = true ∧ HasCurrentWork .value s := by
  have hany : (((watchMachine fixtureEnv fixtureJson).guard (KeepsCurrent fixtureEnv .value)).run
      (others [.connect] ++ pollTurn (templateAt 100) ++ others (handshake 0 (templateAt 100)) ++
        others [.session 0 .pollRecv] ++ pollTurn (templateAt 101) ++ others (receive 0))).any
          (fun s => s.1.pool.sessions.any Session.isIdle) = true := by
    decide +kernel
  obtain ⟨s, hs, hidle⟩ := (Option.any_eq_true _ _).mp hany
  have h := Machine.runsTo_of_run_guard hs
  exact ⟨s, h, hidle, hasCurrentWork_of_runsTo h⟩

/-- The poller broadcasts a job, and a session that connects behind it is authorized while the
source has none: its miner is sent nothing. -/
theorem not_hasCurrentWork_fixture : ∃ s,
    (watchMachine fixtureEnv fixtureJson).run
      (pollTurn (templateAt 100) ++ others ([.connect] ++ sendLine 0 subscribeLine ++
        [.session 0 (.written true)] ++ sendLine 0 authorizeLine ++
        [.session 0 (.currentJob (.ok none)), .session 0 (.written true)])) = some s ∧
    ¬HasCurrentWork .value s ∧ ¬HasCurrentWork .jobId s := by
  have hany : ((watchMachine fixtureEnv fixtureJson).run
      (pollTurn (templateAt 100) ++ others ([.connect] ++ sendLine 0 subscribeLine ++
        [.session 0 (.written true)] ++ sendLine 0 authorizeLine ++
        [.session 0 (.currentJob (.ok none)), .session 0 (.written true)]))).any (fun s =>
          s.2.observed.isSome && s.1.pool.sessions.any fun x =>
            x.isIdle && x.notified.isEmpty) = true := by
    decide +kernel
  obtain ⟨s, hs, hany⟩ := (Option.any_eq_true _ _).mp hany
  rw [Bool.and_eq_true, List.any_eq_true] at hany
  obtain ⟨hsome, x, hx, hprops⟩ := hany
  rw [Bool.and_eq_true, List.isEmpty_iff, Session.isIdle_iff] at hprops
  obtain ⟨⟨hpc, hworker, hqueue⟩, hnotified⟩ := hprops
  obtain ⟨observed, hobserved⟩ := Option.isSome_iff_exists.mp hsome
  have hnone : ∀ identity, ¬HasCurrentWork identity s := by
    intro identity hwork
    obtain ⟨job, hjob, -⟩ := hwork observed hobserved x hx hpc hworker hqueue
    rw [hnotified] at hjob
    cases hjob
  exact ⟨s, hs, hnone .value, hnone .jobId⟩

/-! ## Sources that do not go back -/

/-- A fetched job is no lower than the observed one and those fetched behind it. -/
def FetchesNoLower (env : PoolEnv) (s : Polling × Watch) (e : PollingEvent) : Prop :=
  ∀ f ∈ s.1.fetch env e, (∀ job ∈ s.2.observed, job.height ≤ f.job.height) ∧
    (∀ job ∈ s.2.since, job.height ≤ f.job.height) ∧ ∀ job ∈ s.1.pending, job.height ≤ f.job.height

/-- The fetched jobs that are watched are mapped and in order. -/
structure Watch.Ordered (env : PoolEnv) (s : Polling) (w : Watch) : Prop where
  mapped : ∀ job ∈ w.since ++ w.sinceAnswer, env.IsMapped job
  observed : ∀ job ∈ w.observed, ∀ k ∈ w.since, job.height ≤ k.height
  before : ∀ job ∈ s.pending, ∀ k ∈ w.since, k ∈ w.sinceAnswer ∨ k.height ≤ job.height
  behind : ∀ job ∈ s.pending, ∀ k ∈ w.sinceAnswer, job.height ≤ k.height

theorem Polling.isMapped_of_fetch {s : Polling} {e : PollingEvent} {f : Fetch}
    (h : s.fetch env e = some f) : env.IsMapped f.job := by
  unfold fetch at h
  split at h
  · obtain ⟨job, hjob, rfl⟩ := Option.map_eq_some_iff.mp h
    exact PoolEnv.isMapped_of_currentJob hjob
  · split at h
    · cases h
    · split at h
      · obtain ⟨job, hjob, rfl⟩ := Option.map_eq_some_iff.mp h
        exact PoolEnv.isMapped_of_currentJob hjob
      · cases h
  · cases h

/-- What a session fetches keeps the order. -/
theorem Watch.Ordered.record_other {s : Polling} {p : Pool} {w : Watch} {e : Event}
    (h : w.Ordered env s)
    (hfetch : ∀ f, s.fetch env (.other e) = some f → ∃ i, f.caller = .session i)
    (hlow : FetchesNoLower env (s, w) (.other e)) :
    (w.record env s (.other e)).Ordered env ⟨p, s.pending⟩ := by
  unfold record
  dsimp only
  split
  · exact ⟨h.mapped, h.observed, h.before, h.behind⟩
  · next hf =>
    obtain ⟨i, hi⟩ := hfetch _ hf
    cases hi
  · next i job hf =>
    have hmapped := Polling.isMapped_of_fetch hf
    obtain ⟨hlowObserved, -, hlowPending⟩ := hlow _ hf
    refine ⟨?_, ?_, ?_, ?_⟩
    · intro k hk
      simp only [List.mem_append, List.mem_singleton] at hk
      rcases hk with (hk | rfl) | hk | rfl
      · exact h.mapped k (List.mem_append_left _ hk)
      · exact hmapped
      · exact h.mapped k (List.mem_append_right _ hk)
      · exact hmapped
    · intro j hj k hk
      rcases List.mem_append.mp hk with hk | hk
      · exact h.observed j hj k hk
      · rw [List.mem_singleton.mp hk]
        exact hlowObserved j hj
    · intro j hj k hk
      rcases List.mem_append.mp hk with hk | hk
      · exact (h.before j hj k hk).imp_left (List.mem_append_left _)
      · exact .inl (List.mem_append_right _ hk)
    · intro j hj k hk
      rcases List.mem_append.mp hk with hk | hk
      · exact h.behind j hj k hk
      · rw [List.mem_singleton.mp hk]
        exact hlowPending j hj

/-- A turn takes the answer for the observed job. -/
theorem Watch.Ordered.record_turned {s : Polling} {p : Pool} {w : Watch} (h : w.Ordered env s) :
    (w.record env s .turned).Ordered env ⟨p, none⟩ where
  mapped k hk := h.mapped k (List.mem_append_right _ (by simpa [record] using hk))
  observed := h.behind
  before _ hj := by cases hj
  behind _ hj := by cases hj

theorem ordered_of_runsTo {Ok : Polling × Watch → PollingEvent → Prop}
    (hok : ∀ {s e}, Ok s e → FetchesNoLower env s e) {es : List PollingEvent} {s : Polling × Watch}
    (h : (watchMachine env parseJson).RunsTo Ok es s) : s.2.Ordered env s.1 := by
  induction h with
  | nil =>
    exact ⟨fun _ hk => (by cases hk), fun _ hj => (by cases hj), fun _ hj => (by cases hj),
      fun _ hj => (by cases hj)⟩
  | @snoc es s s' e run ok step ih =>
    obtain ⟨t, hstep, rfl⟩ := Option.map_eq_some_iff.mp step
    have hcases : Polling.StepTo env parseJson s.1 e t := Polling.step_cases hstep
    have hlow := hok ok
    cases hcases with
    | @answered template idle =>
      cases hjob : env.currentJob template with
      | none =>
        have hrecord : s.2.record env s.1 (.answered template) = s.2 := by
          simp [Watch.record, Polling.fetch, hjob]
        rw [hrecord]
        exact ⟨ih.mapped, ih.observed, fun _ hj => (by cases hj), fun _ hj => (by cases hj)⟩
      | some job =>
        have hfetch : s.1.fetch env (.answered template) = some ⟨.poller, job⟩ := by
          simp [Polling.fetch, hjob]
        have hrecord :
            s.2.record env s.1 (.answered template) = { s.2 with sinceAnswer := [] } := by
          simp [Watch.record, hfetch]
        obtain ⟨-, hlowSince, -⟩ := hlow _ hfetch
        rw [hrecord]
        refine ⟨fun k hk => ih.mapped k ?_, ih.observed, ?_, fun _ _ _ hk => (by cases hk)⟩
        · exact List.mem_append_left _ (by simpa using hk)
        · rintro j ⟨⟩ k hk
          exact .inr (hlowSince k hk)
    | turnedSame pending same => exact ih.record_turned
    | turnedNew pending new => exact ih.record_turned
    | connect =>
      exact ih.record_other (by simp [Polling.fetch]) hlow
    | @session j e y y' shared get move =>
      refine ih.record_other (fun f hf => ?_) hlow
      obtain ⟨_, _, _, -, -, hcaller, -⟩ := (Polling.fetch_session get).mp hf
      exact ⟨j, hcaller⟩

/-- When a job is known by its id and the heights never decrease, a run meets the condition if its
authorizations do. -/
theorem keepsCurrent_of_ordered {es : List PollingEvent} {s : Polling × Watch}
    (h : (watchMachine env parseJson).RunsTo
      (fun s e => AuthorizesWithWork env .jobId s e ∧ FetchesNoLower env s e) es s) :
    (watchMachine env parseJson).RunsTo (KeepsCurrent env .jobId) es s := by
  refine h.imp fun {es s s' e} run _ hok => ⟨hok.1, ?_, ?_⟩
  · unfold ObservesSame
    split
    · rintro job hpending hsame - observed hobserved
      obtain ⟨_, heq, hid, hheight⟩ := exists_observed run hpending hsame
      obtain rfl := Option.some.inj (heq.symm.trans hobserved)
      refine ⟨hid.symm, fun k hk => ?_⟩
      have hordered := ordered_of_runsTo (fun hok => hok.2) run
      refine (hordered.before job hpending k hk).symm.imp_left fun hle => ?_
      have hge := hordered.observed _ hobserved k hk
      rw [← hheight] at hge
      obtain ⟨template, htemplate⟩ := (exists_runsTo_pool run.of_track).2 job hpending
      exact ((hordered.mapped k (List.mem_append_left _ hk)).jobId_eq_iff
        (PoolEnv.isMapped_of_currentJob htemplate)).mpr (UInt64.le_antisymm hle hge)
    · trivial
  · unfold SkipsSent
    split
    · rintro x hx - job - - hlast observed hob hsame
      obtain ⟨_, hpool⟩ := (exists_runsTo_pool run.of_track).1
      rw [(jobFacts_of_runsTo hpool hx).lastNotify] at hlast
      obtain ⟨last, hmem, hid⟩ := Option.map_eq_some_iff.mp hlast
      exact ⟨last, hmem, .inl (hid.trans hsame)⟩
    · trivial

end AzcoinPool
