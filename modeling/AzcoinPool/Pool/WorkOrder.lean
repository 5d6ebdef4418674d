import AzcoinPool.Pool.Polling

/-!
# The order of the work a miner is sent

The jobs of a session, those its miner was sent, the one it is being sent and those that wait in the
receiver, are one stream, and a step takes from it, but for two: a broadcast adds a job at its end,
and an authorization puts the job it fetched in front of those that wait. As long as nothing older
waits there, the heights of the stream never decrease if those of the fetched jobs do not
(`notified_ordered_of_runsTo`). A session that was broadcast a job before it was authorized is sent
the newer job first and the older one behind it (`not_notified_ordered_fixture`).
-/

namespace AzcoinPool

variable {env : PoolEnv} {parseJson : String → Option Sv1Request}

/-! ## The stream of a session -/

/-- The jobs a session has notified its miner of, is notifying it of, and has yet to receive. -/
def Session.stream (x : Session) : List Job :=
  x.notified ++ x.pc.writingJob.toList ++ x.receiver.queue

/-- A broadcast adds its job at the end. -/
theorem Session.stream_push (x : Session) (job : Job) :
    List.Sublist ({ x with receiver := x.receiver.push job } : Session).stream
      (x.stream ++ [job]) := by
  have hqueue : (x.receiver.push job).queue.Sublist (x.receiver.queue ++ [job]) := by
    unfold Receiver.push
    split
    · exact List.tail_sublist _
    · exact List.Sublist.refl _
  unfold stream
  rw [List.append_assoc _ x.receiver.queue]
  exact hqueue.append_left _

theorem Session.stream_sublist {x x' : Session}
    (hsent : List.Sublist (x'.notified ++ x'.pc.writingJob.toList)
      (x.notified ++ x.pc.writingJob.toList))
    (hqueue : x'.receiver.queue.Sublist x.receiver.queue) : x'.stream.Sublist x.stream :=
  hsent.append hqueue

/-- A step of a session takes from its stream, or puts the job that an authorization fetched in
front of those that wait. -/
theorem Session.StepTo.stream_cases {shared shared' : Shared} {x x' : Session} {e : SessionEvent}
    (h : StepTo env parseJson shared x e shared' x') :
    x'.stream.Sublist x.stream ∨ ∃ template id username job, e = .currentJob template ∧
      x.pc = .authorizing id username ∧ env.currentJob template = some job ∧
      x.stream = x.notified ++ x.receiver.queue ∧
      x'.stream = x.notified ++ [job] ++ x.receiver.queue := by
  cases h with
  | @authorized template id username pc =>
    have hstream : x.stream = x.notified ++ x.receiver.queue := by
      simp [stream, pc, SessionPc.writingJob]
    cases hjob : env.currentJob template with
    | none =>
      left
      rw [hstream]
      simp [stream]
    | some job =>
      right
      exact ⟨template, id, username, job, rfl, pc, hjob, hstream, by simp [stream]⟩
  | recvNotify pc recv _ _ =>
    left
    have hstream : x.stream = x.notified ++ x.receiver.queue := by
      simp [stream, pc, SessionPc.writingJob]
    rw [hstream, Receiver.queue_of_recv_job recv]
    simp [stream, SessionPc.writingJob]
  | recvLagged pc recv | recvSkip pc recv _ =>
    refine .inl (stream_sublist (List.Sublist.refl _) ?_)
    rcases Receiver.queue_of_recv recv with ⟨_, -, hqueue⟩ | ⟨-, hqueue⟩
    · rw [hqueue]
      exact List.sublist_cons_self _ _
    · rw [hqueue]
  | wroteNotify pc => exact .inl (stream_sublist (by simp [pc, SessionPc.writingJob]) (by rfl))
  | wroteNext pc | wroteResponse pc =>
    exact .inl (stream_sublist (by simp [pc, SessionPc.writingJob]) (by rfl))
  | readInvalid | readDone | notSubmitted | reported | relookupNone | blockSubmitted =>
    exact .inl (stream_sublist (by simp [finish]) (by rfl))
  | _ => exact .inl (stream_sublist (by simp [SessionPc.writingJob]) (by rfl))

/-! ## The order of the fetches -/

/-- The jobs that the poller and the session at the index have fetched. -/
def fetchedFor (i : Nat) (log : List Fetch) : List Job :=
  (log.filter fun f => f.caller = .poller ∨ f.caller = .session i).map (·.job)

theorem fetchedFor_append (i : Nat) (log log' : List Fetch) :
    fetchedFor i (log ++ log') = fetchedFor i log ++ fetchedFor i log' := by
  simp [fetchedFor]

/-- The heights of the jobs never decrease. -/
def HeightsOrdered (jobs : List Job) : Prop :=
  jobs.Pairwise fun a b => a.height ≤ b.height

instance (jobs : List Job) : Decidable (HeightsOrdered jobs) :=
  inferInstanceAs (Decidable (jobs.Pairwise fun a b => a.height ≤ b.height))

/-- The job that is on its way from the poller to the sessions. -/
def Polling.upcoming (s : Polling) : List Job :=
  (s.pending.filter s.pool.poller.isNew).toList

theorem Polling.mem_pending_of_mem_upcoming {s : Polling} {job : Job} (h : job ∈ s.upcoming) :
    job ∈ s.pending := by
  rw [upcoming, Option.mem_toList, Option.filter_eq_some_iff] at h
  exact h.1

theorem Polling.heightsOrdered_upcoming (s : Polling) : HeightsOrdered s.upcoming := by
  unfold upcoming HeightsOrdered
  cases Option.filter _ s.pending <;> simp

/-- The pool with the calls of `current_job` that have returned a job, in this order. -/
def fetchingMachine (env : PoolEnv) (parseJson : String → Option Sv1Request) :
    Machine (Polling × List Fetch) PollingEvent :=
  (pollingMachine env parseJson).track [] fun s e log => log ++ (s.fetch env e).toList

/-- The condition: a job that an authorization of the session fetches is no higher than those that
the session has yet to receive and the one on its way to it. -/
def FetchesInOrder (env : PoolEnv) (i : Nat) (s : Polling × List Fetch) (e : PollingEvent) : Prop :=
  ∀ f ∈ s.1.fetch env e, f.caller = .session i → ∀ x ∈ s.1.pool.sessions[i]?,
    ∀ job ∈ x.receiver.queue ++ s.1.upcoming, f.job.height ≤ job.height

instance (env : PoolEnv) (i : Nat) (s : Polling × List Fetch) (e : PollingEvent) :
    Decidable (FetchesInOrder env i s e) :=
  inferInstanceAs (Decidable (∀ f ∈ s.1.fetch env e, f.caller = .session i →
    ∀ x ∈ s.1.pool.sessions[i]?, ∀ job ∈ x.receiver.queue ++ s.1.upcoming,
      f.job.height ≤ job.height))

/-- The jobs of a session and the one on its way to it were fetched, and are in order. -/
structure Session.InOrder (s : Polling) (fetched : List Job) (x : Session) : Prop where
  ordered : HeightsOrdered (x.stream ++ s.upcoming)
  fetched : ∀ job ∈ x.stream ++ s.upcoming, job ∈ fetched

namespace Session.InOrder

variable {s s' : Polling} {fetched fetched' : List Job} {x x' : Session}

theorem new (hpending : ∀ job ∈ s.pending, job ∈ fetched) : Session.InOrder s fetched {} where
  ordered := s.heightsOrdered_upcoming
  fetched job hjob := hpending job (Polling.mem_pending_of_mem_upcoming hjob)

theorem sublist (h : x.InOrder s fetched)
    (hsub : List.Sublist (x'.stream ++ s'.upcoming) (x.stream ++ s.upcoming))
    (hfetched : ∀ job ∈ fetched, job ∈ fetched') : x'.InOrder s' fetched' where
  ordered := List.Pairwise.sublist hsub h.ordered
  fetched job hjob := hfetched job (h.fetched job (hsub.mem hjob))

/-- The answer to the poller, if it is new, comes behind all jobs that were fetched. -/
theorem answered (h : x.InOrder s fetched) (idle : s.pending = none) {answer : Option Job}
    (hordered : HeightsOrdered (fetched ++ answer.toList)) :
    x.InOrder { s with pending := answer } (fetched ++ answer.toList) := by
  have hstream : ∀ job ∈ x.stream, job ∈ fetched := fun job hjob =>
    h.fetched job (List.mem_append_left _ hjob)
  have hbefore : HeightsOrdered x.stream := by
    have hupcoming : s.upcoming = [] := by simp [Polling.upcoming, idle]
    have hall := h.ordered
    rwa [hupcoming, List.append_nil] at hall
  have hupcoming : ∀ job ∈ Polling.upcoming { s with pending := answer }, job ∈ answer :=
    fun job hjob => Polling.mem_pending_of_mem_upcoming hjob
  obtain ⟨-, -, hacross⟩ := List.pairwise_append.mp hordered
  refine ⟨List.pairwise_append.mpr ⟨hbefore, Polling.heightsOrdered_upcoming _, ?_⟩, ?_⟩
  · intro a ha b hb
    exact hacross a (hstream a ha) b (Option.mem_toList.mpr (hupcoming b hb))
  · intro job hjob
    rw [List.mem_append] at hjob ⊢
    rcases hjob with hjob | hjob
    · exact .inl (hstream job hjob)
    · exact .inr (Option.mem_toList.mpr (hupcoming job hjob))

/-- The answer to an authorization comes behind the jobs sent and in front of those that wait, which
are no lower. -/
theorem authorized (h : x.InOrder s fetched) {job : Job}
    (hstream : x.stream = x.notified ++ x.receiver.queue)
    (hstream' : x'.stream = x.notified ++ [job] ++ x.receiver.queue)
    (hupcoming : s'.upcoming = s.upcoming) (hordered : HeightsOrdered (fetched ++ [job]))
    (hlow : ∀ later ∈ x.receiver.queue ++ s.upcoming, job.height ≤ later.height) :
    x'.InOrder s' (fetched ++ [job]) := by
  have hstreams : x.stream ++ s.upcoming = x.notified ++ (x.receiver.queue ++ s.upcoming) := by
    rw [hstream, List.append_assoc]
  have hstreams' : x'.stream ++ s'.upcoming =
      x.notified ++ job :: (x.receiver.queue ++ s.upcoming) := by
    rw [hstream', hupcoming]
    simp
  have hbefore := h.ordered
  have hfetched := h.fetched
  rw [hstreams] at hbefore hfetched
  obtain ⟨hsent, hwaiting, hbetween⟩ := List.pairwise_append.mp hbefore
  obtain ⟨-, -, hacross⟩ := List.pairwise_append.mp hordered
  constructor
  · rw [hstreams']
    refine List.pairwise_append.mpr ⟨hsent, List.pairwise_cons.mpr ⟨hlow, hwaiting⟩, ?_⟩
    intro a ha b hb
    rcases List.mem_cons.mp hb with rfl | hb
    · exact hacross a (hfetched a (List.mem_append_left _ ha)) b (List.mem_singleton_self b)
    · exact hbetween a ha b hb
  · intro a ha
    rw [hstreams', List.mem_append, List.mem_cons] at ha
    rcases ha with ha | rfl | ha
    · exact List.mem_append_left _ (hfetched a (List.mem_append_left _ ha))
    · exact List.mem_append_right _ (List.mem_singleton_self a)
    · exact List.mem_append_left _ (hfetched a (List.mem_append_right _ ha))

/-- The poller broadcasts the job on its way. -/
theorem broadcast (h : x.InOrder s fetched) {job : Job} (pending : s.pending = some job)
    (new : s.pool.poller.isNew job = true) (hpending : s'.pending = none)
    (hx : x' = x ∨ x' = { x with receiver := x.receiver.push job }) : x'.InOrder s' fetched := by
  have hupcoming : s.upcoming = [job] := by simp [Polling.upcoming, pending, new]
  have hupcoming' : s'.upcoming = [] := by simp [Polling.upcoming, hpending]
  refine h.sublist ?_ fun _ => id
  rw [hupcoming, hupcoming', List.append_nil]
  rcases hx with rfl | rfl
  · exact List.sublist_append_left _ _
  · exact x.stream_push job

/-- A step of the session itself. -/
theorem step {i : Nat} {log : List Fetch} {e : SessionEvent} {shared : Shared}
    (h : x.InOrder s (fetchedFor i log)) (get : s.pool.sessions[i]? = some x)
    (move : Session.StepTo env parseJson s.pool.shared x e shared x')
    (ok : FetchesInOrder env i (s, log) (.other (.session i e)))
    (hupcoming : s'.upcoming = s.upcoming) (hordered : HeightsOrdered
      (fetchedFor i (log ++ (s.fetch env (.other (.session i e))).toList))) :
    x'.InOrder s' (fetchedFor i (log ++ (s.fetch env (.other (.session i e))).toList)) := by
  rcases move.stream_cases with hsub |
    ⟨template, id, username, job, rfl, hpc, hjob, hbefore, hbehind⟩
  · refine h.sublist (by rw [hupcoming]; exact hsub.append_right _) fun job hjob => ?_
    rw [fetchedFor_append]
    exact List.mem_append_left _ hjob
  · have hfetch : s.fetch env (.other (.session i (.currentJob template))) =
        some ⟨.session i, job⟩ :=
      (Polling.fetch_session get).mpr ⟨template, id, username, rfl, hpc, rfl, hjob⟩
    have hnew : fetchedFor i [⟨.session i, job⟩] = [job] := by simp [fetchedFor]
    rw [hfetch, Option.toList_some, fetchedFor_append, hnew] at hordered ⊢
    exact h.authorized hbefore hbehind hupcoming hordered (ok ⟨.session i, job⟩ hfetch rfl x get)

end Session.InOrder

/-! ## Runs -/

/-- Behind every run the answer to the poller was fetched, and the jobs of the session are in order.
-/
theorem inOrder_of_runsTo {i : Nat} {es : List PollingEvent} {s : Polling × List Fetch}
    (h : (fetchingMachine env parseJson).RunsTo (FetchesInOrder env i) es s)
    (hordered : HeightsOrdered (fetchedFor i s.2)) :
    (∀ job ∈ s.1.pending, job ∈ fetchedFor i s.2) ∧
      ∀ x, s.1.pool.sessions[i]? = some x → x.InOrder s.1 (fetchedFor i s.2) := by
  induction h with
  | nil => exact ⟨fun job hjob => (by cases hjob), fun x hx => (by cases hx)⟩
  | @snoc es s s' e run ok step ih =>
    obtain ⟨t, hstep, rfl⟩ := Option.map_eq_some_iff.mp step
    dsimp only at hordered ⊢
    have happend := fetchedFor_append i s.2 (s.1.fetch env e).toList
    have hkeep : ∀ job ∈ fetchedFor i s.2,
        job ∈ fetchedFor i (s.2 ++ (s.1.fetch env e).toList) := by
      intro job hjob
      rw [happend]
      exact List.mem_append_left _ hjob
    obtain ⟨hpending, hsession⟩ := ih (List.Pairwise.sublist
      (by rw [happend]; exact List.sublist_append_left _ _) hordered)
    have hcases : Polling.StepTo env parseJson s.1 e t := Polling.step_cases hstep
    cases hcases with
    | @answered template idle =>
      have hnew : fetchedFor i (s.1.fetch env (.answered template)).toList =
          (env.currentJob template).toList := by
        simp only [Polling.fetch, fetchedFor]
        cases env.currentJob template <;> simp
      rw [hnew] at happend
      rw [happend] at hordered ⊢
      refine ⟨fun job hjob => ?_, fun x hx => (hsession x hx).answered idle hordered⟩
      exact List.mem_append_right _ (Option.mem_toList.mpr hjob)
    | turnedSame pending same =>
      refine ⟨fun job hjob => (by cases hjob), fun x hx => (hsession x hx).sublist ?_ hkeep⟩
      simp [Polling.upcoming]
    | @turnedNew job pending new =>
      refine ⟨fun job hjob => (by cases hjob), fun x' hx' => ?_⟩
      obtain ⟨x, hx, hpush⟩ := Pool.broadcast_eq_some hx'
      exact ((hsession x hx).broadcast pending new rfl hpush).sublist (List.Sublist.refl _) hkeep
    | connect =>
      refine ⟨fun job hjob => hkeep job (hpending job hjob), fun x hx => ?_⟩
      rcases Pool.connect_eq_some hx with hx | rfl
      · exact (hsession x hx).sublist (List.Sublist.refl _) hkeep
      · exact .new fun job hjob => hkeep job (hpending job hjob)
    | @session j e x x' shared get move =>
      refine ⟨fun job hjob => hkeep job (hpending job hjob), fun y hy => ?_⟩
      rcases Pool.set_eq_some hy with ⟨rfl, rfl⟩ | ⟨-, hy⟩
      · exact (hsession x get).step get move ok rfl hordered
      · exact (hsession y hy).sublist (List.Sublist.refl _) hkeep

/-- If the heights of the jobs fetched by the poller and by a session never decrease, neither do
those of the jobs its miner is sent, in every run in which the session fetches no job that is higher
than one it has yet to receive. -/
theorem notified_ordered_of_runsTo {i : Nat} {es : List PollingEvent} {s : Polling × List Fetch}
    {x : Session} (h : (fetchingMachine env parseJson).RunsTo (FetchesInOrder env i) es s)
    (hx : s.1.pool.sessions[i]? = some x) (hordered : HeightsOrdered (fetchedFor i s.2)) :
    HeightsOrdered x.notified := by
  have hstream := ((inOrder_of_runsTo h hordered).2 x hx).ordered
  unfold Session.stream at hstream
  rw [List.append_assoc, List.append_assoc] at hstream
  exact (List.pairwise_append.mp hstream).1

/-- A session that was broadcast a job fetches the same one and is broadcast the next: its miner is
sent both in order. -/
theorem notified_ordered_fixture : ∃ s x,
    (fetchingMachine fixtureEnv fixtureJson).RunsTo (FetchesInOrder fixtureEnv 0)
      (others [.connect] ++ pollTurn (templateAt 100) ++ others (handshake 0 (templateAt 100)) ++
        pollTurn (templateAt 101) ++ others ([.session 0 .pollRecv] ++ receive 0)) s ∧
    s.1.pool.sessions[0]? = some x ∧ x.notified.map (·.height) = [100, 101] ∧
    HeightsOrdered x.notified := by
  have hany : (((fetchingMachine fixtureEnv fixtureJson).guard (FetchesInOrder fixtureEnv 0)).run
      (others [.connect] ++ pollTurn (templateAt 100) ++ others (handshake 0 (templateAt 100)) ++
        pollTurn (templateAt 101) ++ others ([.session 0 .pollRecv] ++ receive 0))).any (fun s =>
          s.1.pool.sessions[0]?.any fun x =>
            decide (HeightsOrdered (fetchedFor 0 s.2) ∧ x.notified.map (·.height) = [100, 101])) =
      true := by
    decide +kernel
  obtain ⟨s, hs, hany⟩ := (Option.any_eq_true _ _).mp hany
  obtain ⟨x, hx, hprops⟩ := (Option.any_eq_true _ _).mp hany
  obtain ⟨hordered, hheights⟩ := of_decide_eq_true hprops
  have h := Machine.runsTo_of_run_guard hs
  exact ⟨s, x, h, hx, hheights, notified_ordered_of_runsTo h hx hordered⟩

/-- A session that was broadcast a job fetches the next: its miner is sent that one and then the
older one. -/
theorem not_notified_ordered_fixture : ∃ s x,
    (fetchingMachine fixtureEnv fixtureJson).run
      (others [.connect] ++ pollTurn (templateAt 100) ++ others (handshake 0 (templateAt 101)) ++
        others (receive 0)) = some s ∧
    s.1.pool.sessions[0]? = some x ∧ HeightsOrdered (s.2.map (·.job)) ∧
    HeightsOrdered (fetchedFor 0 s.2) ∧ ¬HeightsOrdered x.notified := by
  have hany : ((fetchingMachine fixtureEnv fixtureJson).run
      (others [.connect] ++ pollTurn (templateAt 100) ++ others (handshake 0 (templateAt 101)) ++
        others (receive 0))).any (fun s => s.1.pool.sessions[0]?.any fun x =>
          decide (HeightsOrdered (s.2.map (·.job)) ∧ HeightsOrdered (fetchedFor 0 s.2) ∧
            ¬HeightsOrdered x.notified)) = true := by
    decide +kernel
  obtain ⟨s, hs, hany⟩ := (Option.any_eq_true _ _).mp hany
  obtain ⟨x, hx, hprops⟩ := (Option.any_eq_true _ _).mp hany
  obtain ⟨hall, hordered, hnot⟩ := of_decide_eq_true hprops
  exact ⟨s, x, hs, hx, hall, hordered, hnot⟩

end AzcoinPool
