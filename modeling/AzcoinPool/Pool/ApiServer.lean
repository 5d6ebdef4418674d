import Mathlib.Data.Finmap
import AzcoinPool.Pool.Attribution
import AzcoinPool.Pool.PayoutSafety

/-!
# What the operator is shown

The HTTP API reads what the sessions leave behind: the worker registry, and the snapshot of
`InMemoryStatsSnapshot`. `apiMachine` is the pool with the two, with the listener, which counts a
connection before it spawns its session, with the tasks of the sessions, which count it off behind
their end, and with the requests for the statistics, which take a snapshot and count the workers
behind it. In every reachable state the operator is shown the truth (`shown_of_runsTo`): the workers
are those of the accepted authorizations, one each, and an answer counts those of some moment
between its request and itself. Nothing else in the statistics ever changes. The counter of
connections, which no route reads, is exact and never wraps. The build is a release build, whose
arithmetic wraps: with overflow checks `nbits_to_target` may panic (`nbitsToTargetChecked_eq`), and
the task is then never counted off.
-/

namespace AzcoinPool

variable {env : PoolEnv} {parseJson : String → Option Sv1Request}

/-! ## The worker registry -/

/-- `InMemoryWorkerRegistry`, a hash map: its entries have no order. -/
abbrev InMemoryWorkerRegistry := Finmap fun _ : String => WorkerIdentity

namespace InMemoryWorkerRegistry

variable {workers : InMemoryWorkerRegistry} {names : List String}

def register (workers : InMemoryWorkerRegistry) (worker : WorkerIdentity) :
    InMemoryWorkerRegistry :=
  workers.insert worker.id worker

/-- What `list` may return: the workers, in any order. -/
def Lists (workers : InMemoryWorkerRegistry) (l : List WorkerIdentity) : Prop :=
  (l : Multiset WorkerIdentity) = workers.entries.map fun entry => entry.2

def count (workers : InMemoryWorkerRegistry) : UInt64 := UInt64.ofNat workers.entries.card

/-- The registry has the workers of the names, under their names. -/
def HasNames (workers : InMemoryWorkerRegistry) (names : List String) : Prop :=
  ∀ u, workers.lookup u = if u ∈ names then some (WorkerIdentity.new u) else none

theorem HasNames.register (h : workers.HasNames names) (u : String) :
    (workers.register (WorkerIdentity.new u)).HasNames (names ++ [u]) := by
  intro v
  unfold InMemoryWorkerRegistry.register
  rw [WorkerIdentity.id_new]
  by_cases hv : v = u
  · subst hv
    simp
  · rw [Finmap.lookup_insert_of_ne _ hv, h v]
    simp [hv]

theorem HasNames.keys_eq (h : workers.HasNames names) : workers.keys = names.toFinset := by
  ext u
  rw [Finmap.mem_keys, ← Finmap.lookup_isSome, h u, List.mem_toFinset]
  split <;> simp_all

/-- The registry counts every name once. -/
theorem HasNames.count_eq (h : workers.HasNames names) :
    workers.count = UInt64.ofNat names.dedup.length := by
  have hcard : workers.entries.card = workers.keys.card := (Multiset.card_map _ _).symm
  rw [count, hcard, h.keys_eq, List.card_toFinset]

/-- The registry lists the worker of every name once. -/
theorem HasNames.perm_of_lists (h : workers.HasNames names) {l : List WorkerIdentity}
    (hl : workers.Lists l) : l.Perm (names.dedup.map WorkerIdentity.new) := by
  have hnew : ∀ entry ∈ workers.entries, entry.2 = WorkerIdentity.new entry.1 := by
    rintro ⟨u, worker⟩ hmem
    have hlookup := h u
    rw [Finmap.lookup_eq_some_iff.mpr hmem] at hlookup
    split at hlookup
    · exact Option.some.inj hlookup
    · cases hlookup
  have hkeys : workers.entries.map Sigma.fst = (names.dedup : Multiset String) :=
    congrArg Finset.val h.keys_eq
  rw [← Multiset.coe_eq_coe, hl, Multiset.map_congr rfl hnew, ← Multiset.map_coe, ← hkeys,
    Multiset.map_map]
  rfl

end InMemoryWorkerRegistry

/-! ## The statistics -/

structure PoolStats where
  poolName : String
  hashrate : Float
  workerCount : UInt64
  roundHeight : UInt64
  roundStatus : String

/-- `InMemoryStatsSnapshot`. -/
structure InMemoryStatsSnapshot where
  poolName : String
  activeConnections : UInt64
  workerCount : UInt64
  roundHeight : UInt64
  roundStatus : String

namespace InMemoryStatsSnapshot

def new (poolName : String) : InMemoryStatsSnapshot where
  poolName := poolName
  activeConnections := 0
  workerCount := 0
  roundHeight := 0
  roundStatus := "open"

/-- `fetch_add`, which wraps. -/
def recordConnection (stats : InMemoryStatsSnapshot) : InMemoryStatsSnapshot :=
  { stats with activeConnections := stats.activeConnections + 1 }

/-- `fetch_sub`, which wraps. -/
def recordDisconnection (stats : InMemoryStatsSnapshot) : InMemoryStatsSnapshot :=
  { stats with activeConnections := stats.activeConnections - 1 }

def snapshot (stats : InMemoryStatsSnapshot) : PoolStats where
  poolName := stats.poolName
  hashrate := 0.0
  workerCount := stats.workerCount
  roundHeight := stats.roundHeight
  roundStatus := stats.roundStatus

end InMemoryStatsSnapshot

/-- A request for the statistics that has taken its snapshot. -/
structure StatsRequest where
  snapshot : PoolStats
  /-- The user names that were authorized before it. -/
  authorized : List String

/-- An answered request. -/
structure StatsAnswer where
  request : StatsRequest
  stats : PoolStats
  /-- The user names that were authorized before the answer. -/
  authorized : List String

structure WorkerSummary where
  id : String
  username : Option String

/-- `pool_workers`, for what `list` returns. -/
def poolWorkers (workers : List WorkerIdentity) : List WorkerSummary :=
  workers.map fun worker => ⟨worker.id, worker.username⟩

/-! ## The pool behind its listener and its API -/

structure Served where
  pool : Pool := {}
  /-- The listener has accepted a connection and not yet spawned its session. -/
  accepted : Bool := false
  /-- The sessions whose task has called `on_disconnect`. -/
  disconnected : List Nat := []
  /-- The sessions whose task has panicked; it calls nothing any more. -/
  panicked : List Nat := []
  workers : InMemoryWorkerRegistry := ∅
  stats : InMemoryStatsSnapshot
  /-- The requests for statistics that are being answered. -/
  requests : List StatsRequest := []
  /-- The user names that were authorized; the program does not keep them. -/
  authorized : List String := []
  /-- The requests that were answered; the program does not keep them. -/
  answers : List StatsAnswer := []

inductive ServedEvent where
  /-- `accept` returns, and `on_connect` is called. -/
  | accept
  /-- The listener subscribes to the jobs and spawns the session. -/
  | spawn
  /-- The task of an ended session calls `on_disconnect`. -/
  | disconnect (s : Nat)
  /-- Any other event of the pool than a connection. -/
  | pool (e : Event)
  /-- A request for the statistics takes its snapshot. -/
  | snapshot
  /-- A request with a snapshot counts the workers and is answered. -/
  | answer (k : Nat)

/-- The user name a session is in `on_authorize` with. -/
def SessionPc.authorizingName : SessionPc → Option String
  | .authorizing _ username => some username
  | _ => none

/-- The worker that `on_authorize` has registered in an event, by the pool behind it. -/
def Pool.authorizing (p : Pool) : Event → Option String
  | .session s .pollRead => p.sessions[s]?.bind (·.pc.authorizingName)
  | _ => none

/-- The session whose task panics in an event: in a release build the only panic is that of
`restore_coinbase_witness`. -/
def Pool.panics (env : PoolEnv) (p : Pool) : Event → Option Nat
  | .session s (.currentJob template) =>
    match p.sessions[s]?.map Session.pc with
    | some (.submitting _ (.fetching share job _)) =>
      if maybeSubmitStep env job (env.currentJob template) share = some .panicked then some s
      else none
    | _ => none
  | _ => none

/-- The registry and the sessions behind an event of the pool. -/
def Served.onPool (env : PoolEnv) (s : Served) (e : Event) (p : Pool) : Served :=
  { s with
    pool := p
    panicked := s.panicked ++ (s.pool.panics env e).toList
    workers := (p.authorizing e).elim s.workers fun u => s.workers.register (WorkerIdentity.new u)
    authorized := s.authorized ++ (p.authorizing e).toList }

/-- `pool_stats` takes its snapshot. -/
def Served.request (s : Served) : StatsRequest where
  snapshot := s.stats.snapshot
  authorized := s.authorized

/-- `pool_stats` counts the workers and returns. -/
def Served.answer (s : Served) (request : StatsRequest) : StatsAnswer where
  request := request
  stats := { request.snapshot with workerCount := s.workers.count }
  authorized := s.authorized

def Served.step (env : PoolEnv) (parseJson : String → Option Sv1Request) (s : Served) :
    ServedEvent → Option Served
  | .accept =>
    if s.accepted then none
    else some { s with accepted := true, stats := s.stats.recordConnection }
  | .spawn =>
    if s.accepted then
      (s.pool.step env parseJson .connect).map fun p => { s with pool := p, accepted := false }
    else none
  | .disconnect i =>
    match s.pool.sessions[i]? with
    | none => none
    | some x =>
      if x.pc.isEnded ∧ i ∉ s.disconnected ∧ i ∉ s.panicked then
        some { s with
          disconnected := s.disconnected ++ [i]
          stats := s.stats.recordDisconnection }
      else none
  | .pool .connect => none
  | .pool e => (s.pool.step env parseJson e).map fun p => s.onPool env e p
  | .snapshot => some { s with requests := s.requests ++ [s.request] }
  | .answer k =>
    match s.requests[k]? with
    | none => none
    | some request =>
      some { s with
        requests := s.requests.eraseIdx k
        answers := s.answers ++ [s.answer request] }

/-- The pool with its listener and its API, as a machine. -/
def apiMachine (env : PoolEnv) (parseJson : String → Option Sv1Request) (poolName : String) :
    Machine Served ServedEvent where
  init := { stats := .new poolName }
  step := Served.step env parseJson

/-! ## What an event of the pool does to the workers and the tasks -/

/-- The registry of the workers is changed by `on_authorize` alone. -/
theorem Session.StepTo.workers_eq {shared shared' : Shared} {x x' : Session} {e : SessionEvent}
    (h : StepTo env parseJson shared x e shared' x') :
    (∃ u, e = .pollRead ∧ x'.pc.authorizingName = some u ∧
      shared'.workers = shared.workers.register (WorkerIdentity.new u)) ∨
    (e = .pollRead → x'.pc.authorizingName = none) ∧ shared'.workers = shared.workers := by
  cases h with
  | readAuthorize => exact .inl ⟨_, rfl, rfl, rfl⟩
  | readPending pc | readBlank pc => exact .inr ⟨fun _ => by rw [pc]; rfl, rfl⟩
  | readEnd | readInvalid | readDone | readSubmit => exact .inr ⟨fun _ => rfl, rfl⟩
  | _ => exact .inr ⟨nofun, rfl⟩

theorem Pool.workers_of_step {p p' : Pool} {e : Event} (h : p.step env parseJson e = some p') :
    p'.shared.workers = (p'.authorizing e).elim p.shared.workers fun u =>
      p.shared.workers.register (WorkerIdentity.new u) := by
  cases Pool.step_cases h with
  | pollNothing | pollSame | pollNew | connect => rfl
  | @session i e x x' shared get hrule =>
    have get' : (p.sessions.set i x')[i]? = some x' :=
      List.getElem?_set_self (List.getElem?_eq_some_iff.mp get).1
    obtain ⟨u, rfl, hname, hworkers⟩ | ⟨hnone, hworkers⟩ := hrule.workers_eq
    · simp only [authorizing, get', Option.bind_some, hname]
      exact hworkers
    · cases e with
      | pollRead =>
        simp only [authorizing, get', Option.bind_some, hnone rfl]
        exact hworkers
      | _ => exact hworkers

/-- No task panics in a reachable state. -/
theorem panics_eq_none (hbitcoin : env.bitcoin.FollowsFormat) {Ok : Pool → Event → Prop}
    {es : List Event} {p : Pool} (h : (poolMachine env parseJson).RunsTo Ok es p) (e : Event) :
    p.panics env e = none := by
  unfold Pool.panics
  split
  · next i template =>
    split
    · next id share job validated hpc =>
      obtain ⟨x, get, hpc⟩ := Option.map_eq_some_iff.mp hpc
      rw [if_neg (ne_panicked_of_runsTo hbitcoin h (List.mem_of_getElem? get) _ _ _ _ _ hpc)]
    · rfl
  · rfl

/-- Only a connection adds a session. -/
theorem Pool.length_sessions_of_step {p p' : Pool} {e : Event}
    (h : p.step env parseJson e = some p') (hconnect : e ≠ .connect) :
    p'.sessions.length = p.sessions.length := by
  cases Pool.step_cases h with
  | pollNothing | pollSame => rfl
  | pollNew => exact List.length_map _
  | connect => exact absurd rfl hconnect
  | session => exact List.length_set

/-! ## What is shown -/

/-- The connections that were accepted and whose task has not called `on_disconnect`. -/
def Served.openConnections (s : Served) : Nat :=
  s.pool.sessions.length - s.disconnected.length + s.accepted.toNat

/-- The statistics count every name once of those that were authorized up to some moment between
the request and the answer. -/
structure StatsAnswer.IsTrue (poolName : String) (a : StatsAnswer) : Prop where
  stats : ∃ names, a.request.authorized <+: names ∧ names <+: a.authorized ∧
    a.stats = ⟨poolName, 0.0, UInt64.ofNat names.dedup.length, 0, "open"⟩

/-- What the operator is shown is true. -/
structure Served.Shows (poolName : String) (s : Served) : Prop where
  connections : s.stats.activeConnections = UInt64.ofNat s.openConnections
  /-- No task is lost to a panic, and each one is counted off once. -/
  tasks : s.panicked = [] ∧ s.disconnected.Nodup ∧
    ∀ i ∈ s.disconnected, i < s.pool.sessions.length
  /-- Every authorized user name is listed once, whatever the order of the hash map is. -/
  listed : ∀ l, s.workers.Lists l → (poolWorkers l).Perm
    (s.authorized.dedup.map fun u => ⟨u, (parseWorkerParts u).1⟩)
  /-- The registry is the one the sessions share. -/
  shared : ∀ u, s.workers.lookup u = s.pool.shared.workers u
  answered : ∀ a ∈ s.answers, a.IsTrue poolName ∧ a.authorized <+: s.authorized

/-- The invariant behind it. -/
structure Served.Sound (env : PoolEnv) (parseJson : String → Option Sv1Request)
    (poolName : String) (s : Served) : Prop where
  reachable : ∃ es, (poolMachine env parseJson).RunsTo (fun _ _ => True) es s.pool
  stats : s.stats =
    { InMemoryStatsSnapshot.new poolName with
      activeConnections := UInt64.ofNat s.openConnections }
  panicked : s.panicked = []
  nodup : s.disconnected.Nodup
  lt : ∀ i ∈ s.disconnected, i < s.pool.sessions.length
  workers : s.workers.HasNames s.authorized
  shared : ∀ u, s.workers.lookup u = s.pool.shared.workers u
  requests : ∀ r ∈ s.requests, r.snapshot = (InMemoryStatsSnapshot.new poolName).snapshot ∧
    r.authorized <+: s.authorized
  answers : ∀ a ∈ s.answers, a.IsTrue poolName ∧ a.authorized <+: s.authorized

/-- Distinct numbers below a bound are no more than the bound. -/
theorem length_le_of_nodup {l : List Nat} {n : Nat} (hnodup : l.Nodup) (hlt : ∀ i ∈ l, i < n) :
    l.length ≤ n := by
  have hsubset : l.toFinset ⊆ Finset.range n := fun i hi => by
    simpa using hlt i (List.mem_toFinset.mp hi)
  calc l.length = l.toFinset.card := (List.toFinset_card_of_nodup hnodup).symm
    _ ≤ (Finset.range n).card := Finset.card_le_card hsubset
    _ = n := Finset.card_range n

namespace Served.Sound

variable {poolName : String} {s : Served}

theorem accept (h : s.Sound env parseJson poolName) (haccepted : s.accepted = false) :
    { s with accepted := true, stats := s.stats.recordConnection }.Sound env parseJson
      poolName := by
  refine ⟨h.reachable, ?_, h.panicked, h.nodup, h.lt, h.workers, h.shared, h.requests, h.answers⟩
  rw [h.stats]
  simp [InMemoryStatsSnapshot.recordConnection, openConnections, haccepted]

theorem spawn (h : s.Sound env parseJson poolName) (haccepted : s.accepted = true) {p : Pool}
    (hstep : s.pool.step env parseJson .connect = some p) :
    { s with pool := p, accepted := false }.Sound env parseJson poolName := by
  obtain ⟨es, hrun⟩ := h.reachable
  have hlength := length_le_of_nodup h.nodup h.lt
  have hrun' : (poolMachine env parseJson).RunsTo (fun _ _ => True) (es ++ [.connect]) p :=
    hrun.snoc trivial hstep
  cases hstep
  refine ⟨⟨_, hrun'⟩, ?_, h.panicked, h.nodup, fun i hi => ?_, h.workers, h.shared,
    h.requests, h.answers⟩
  · have hopen : s.openConnections =
        (s.pool.sessions ++ [({} : Session)]).length - s.disconnected.length := by
      simp only [openConnections, haccepted, Bool.toNat_true, List.length_append,
        List.length_singleton]
      omega
    rw [h.stats, hopen]
    rfl
  · have := h.lt i hi
    simp only [List.length_append, List.length_singleton]
    omega

theorem disconnect (h : s.Sound env parseJson poolName) {i : Nat}
    (hi : i < s.pool.sessions.length) (hnew : i ∉ s.disconnected) :
    { s with
      disconnected := s.disconnected ++ [i]
      stats := s.stats.recordDisconnection }.Sound env parseJson poolName := by
  have hnodup : (s.disconnected ++ [i]).Nodup := by
    rw [List.nodup_append]
    exact ⟨h.nodup, List.nodup_singleton i, by
      rintro j hj k hk rfl
      exact hnew (List.mem_singleton.mp hk ▸ hj)⟩
  have hlt : ∀ j ∈ s.disconnected ++ [i], j < s.pool.sessions.length := by
    simp only [List.forall_mem_append, List.forall_mem_singleton]
    exact ⟨h.lt, hi⟩
  refine ⟨h.reachable, ?_, h.panicked, hnodup, hlt, h.workers, h.shared, h.requests, h.answers⟩
  -- the task that is counted off was counted before
  have hlength := length_le_of_nodup hnodup hlt
  rw [List.length_append, List.length_singleton] at hlength
  have hopen : s.openConnections =
      (s.pool.sessions.length - (s.disconnected ++ [i]).length + s.accepted.toNat) + 1 := by
    simp only [openConnections, List.length_append, List.length_singleton]
    omega
  rw [h.stats, hopen]
  simp [InMemoryStatsSnapshot.recordDisconnection, openConnections]

theorem onPool (h : s.Sound env parseJson poolName) (hbitcoin : env.bitcoin.FollowsFormat)
    {e : Event} (hconnect : e ≠ .connect) {p : Pool}
    (hstep : s.pool.step env parseJson e = some p) :
    (s.onPool env e p).Sound env parseJson poolName := by
  obtain ⟨es, hrun⟩ := h.reachable
  have hlength : p.sessions.length = s.pool.sessions.length :=
    Pool.length_sessions_of_step hstep hconnect
  have hworkers := Pool.workers_of_step hstep
  refine ⟨⟨_, hrun.snoc trivial hstep⟩, ?_, ?_, h.nodup, ?_, ?_, ?_, fun r hr => ?_,
    fun a ha => ?_⟩
  · simp only [Served.onPool, openConnections, hlength]
    exact h.stats
  · simp only [Served.onPool, h.panicked, panics_eq_none hbitcoin hrun e]
    rfl
  · intro i hi
    simp only [Served.onPool, hlength]
    exact h.lt i hi
  · cases hname : p.authorizing e with
    | none => simpa [Served.onPool, hname] using h.workers
    | some u => simpa [Served.onPool, hname] using h.workers.register u
  · intro v
    rw [show (s.onPool env e p).pool = p from rfl, hworkers]
    cases hname : p.authorizing e with
    | none => simpa [Served.onPool, hname] using h.shared v
    | some u =>
      simp only [Served.onPool, hname, Option.elim_some, InMemoryWorkerRegistry.register,
        WorkerRegistry.register, WorkerIdentity.id_new]
      by_cases hv : v = u
      · subst hv
        rw [Finmap.lookup_insert, Function.update_self]
      · rw [Finmap.lookup_insert_of_ne _ hv, Function.update_of_ne hv]
        exact h.shared v
  · obtain ⟨hsnapshot, hprefix⟩ := h.requests r hr
    exact ⟨hsnapshot, hprefix.trans (List.prefix_append _ _)⟩
  · obtain ⟨htrue, hprefix⟩ := h.answers a ha
    exact ⟨htrue, hprefix.trans (List.prefix_append _ _)⟩

theorem snapshot (h : s.Sound env parseJson poolName) :
    { s with requests := s.requests ++ [s.request] }.Sound env parseJson poolName := by
  refine ⟨h.reachable, h.stats, h.panicked, h.nodup, h.lt, h.workers, h.shared, ?_, h.answers⟩
  simp only [List.forall_mem_append, List.forall_mem_singleton]
  refine ⟨h.requests, ?_, List.prefix_refl _⟩
  rw [request, h.stats]
  rfl

theorem answer (h : s.Sound env parseJson poolName) {k : Nat} {request : StatsRequest}
    (hrequest : s.requests[k]? = some request) :
    { s with
      requests := s.requests.eraseIdx k
      answers := s.answers ++ [s.answer request] }.Sound env parseJson poolName := by
  refine ⟨h.reachable, h.stats, h.panicked, h.nodup, h.lt, h.workers, h.shared,
    fun r hr => h.requests r (List.mem_of_mem_eraseIdx hr), ?_⟩
  simp only [List.forall_mem_append, List.forall_mem_singleton]
  obtain ⟨hsnapshot, hprefix⟩ := h.requests request (List.mem_of_getElem? hrequest)
  refine ⟨h.answers, ⟨s.authorized, hprefix, List.prefix_refl _, ?_⟩, List.prefix_refl _⟩
  simp only [Served.answer, hsnapshot, h.workers.count_eq]
  rfl

theorem step (h : s.Sound env parseJson poolName) (hbitcoin : env.bitcoin.FollowsFormat)
    {s' : Served} {e : ServedEvent} (hstep : s.step env parseJson e = some s') :
    s'.Sound env parseJson poolName := by
  cases e with
  | accept =>
    simp only [Served.step] at hstep
    split at hstep
    · cases hstep
    · next haccepted => cases hstep; exact h.accept (by simpa using haccepted)
  | spawn =>
    simp only [Served.step] at hstep
    split at hstep
    · next haccepted =>
      obtain ⟨p, hp, rfl⟩ := Option.map_eq_some_iff.mp hstep
      exact h.spawn haccepted hp
    · cases hstep
  | disconnect i =>
    simp only [Served.step] at hstep
    split at hstep
    · cases hstep
    · next x get =>
      split at hstep
      · next htask =>
        cases hstep
        exact h.disconnect (List.getElem?_eq_some_iff.mp get).1 htask.2.1
      · cases hstep
  | pool e =>
    have hpool : e ≠ .connect ∧ ∃ p, s.pool.step env parseJson e = some p ∧
        s.onPool env e p = s' := by
      cases e with
      | connect => cases hstep
      | poll | session => exact ⟨nofun, Option.map_eq_some_iff.mp hstep⟩
    obtain ⟨hconnect, p, hp, rfl⟩ := hpool
    exact h.onPool hbitcoin hconnect hp
  | snapshot => cases hstep; exact h.snapshot
  | answer k =>
    simp only [Served.step] at hstep
    split at hstep
    · cases hstep
    · next request hrequest => cases hstep; exact h.answer hrequest

end Served.Sound

/-- In every reachable state, whatever the interleaving of the sessions, the listener and the
requests, what the operator is shown is true. -/
theorem shown_of_runsTo (hbitcoin : env.bitcoin.FollowsFormat) {poolName : String}
    {es : List ServedEvent} {s : Served}
    (h : (apiMachine env parseJson poolName).RunsTo (fun _ _ => True) es s) :
    s.Shows poolName := by
  have hsound : s.Sound env parseJson poolName := by
    refine h.invariant (fun s => s.Sound env parseJson poolName) ?_
      fun hsound _ hstep => hsound.step hbitcoin hstep
    refine ⟨⟨[], .nil⟩, rfl, rfl, List.nodup_nil, by simp [apiMachine], fun u => ?_, fun u => ?_,
      by simp [apiMachine], by simp [apiMachine]⟩
    · simp [apiMachine]
    · simp [apiMachine]
  refine ⟨by rw [hsound.stats], ⟨hsound.panicked, hsound.nodup, hsound.lt⟩,
    fun l hl => ?_, hsound.shared, hsound.answers⟩
  have hperm := (hsound.workers.perm_of_lists hl).map fun worker =>
    (⟨worker.id, worker.username⟩ : WorkerSummary)
  rw [List.map_map] at hperm
  exact hperm

/-- Two miners connect, one of them is authorized twice under a name and leaves: one connection is
open, and the statistics count one worker. -/
theorem shown_fixture : ∃ s,
    (apiMachine fixtureEnv fixtureJson "az").run ([.accept, .spawn, .accept, .spawn] ++
      (handshake 0 (templateAt 100) ++ handshake 0 (templateAt 100)).map .pool ++
        [.pool (.session 0 .peerClose), .pool (.session 0 .pollRead), .disconnect 0, .snapshot,
          .answer 0]) = some s ∧
    s.authorized = ["u.w", "u.w"] ∧ s.stats.activeConnections = 1 ∧
    s.answers.map (·.stats.workerCount) = [1] ∧ s.Shows "az" := by
  have hany : ((apiMachine fixtureEnv fixtureJson "az").run ([.accept, .spawn, .accept, .spawn] ++
      (handshake 0 (templateAt 100) ++ handshake 0 (templateAt 100)).map .pool ++
        [.pool (.session 0 .peerClose), .pool (.session 0 .pollRead), .disconnect 0, .snapshot,
          .answer 0])).any (fun s => decide (s.authorized = ["u.w", "u.w"] ∧
            s.stats.activeConnections = 1 ∧
              s.answers.map (·.stats.workerCount) = [1])) = true := by
    decide +kernel
  obtain ⟨s, hs, hprops⟩ := (Option.any_eq_true _ _).mp hany
  obtain ⟨hauthorized, hconnections, hcount⟩ := of_decide_eq_true hprops
  exact ⟨s, hs, hauthorized, hconnections, hcount,
    shown_of_runsTo BitcoinCrate.ofFormat_followsFormat (Machine.runsTo_of_run hs)⟩

end AzcoinPool
