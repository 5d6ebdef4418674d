import AzcoinPool.Pool.Steps

/-!
# Search spaces

The extranonce1 of a session is the value a 32-bit counter had at its latest `mining.subscribe`.
With the subscriptions of a run numbered (`Subscriptions`), the extranonce1 is the number of the
session's latest one up to the wrap of the counter (`issued_of_runsTo`), so two open sessions have
different ones just when their numbers are not congruent (`disjointSpaces_iff`). A counter that has
gone around while a session stayed open gives its extranonce1 away again
(`not_disjointSpaces_fixture`).
-/

namespace AzcoinPool

variable {env : PoolEnv} {parseJson : String → Option Sv1Request}

/-! ## Subscriptions -/

/-- The request that a poll of the read branch is to read. -/
def Session.nextRequest (parseJson : String → Option Sv1Request) (x : Session) :
    Option Sv1Request :=
  (x.reader.poll.2.bind fromUtf8).bind fun line =>
    if trim line = "" then none else parseJson (trim line)

/-- The step reads a `mining.subscribe`. -/
def Session.subscribes (parseJson : String → Option Sv1Request) (x : Session) : SessionEvent → Bool
  | .pollRead => (x.nextRequest parseJson).any fun req => req.method = "mining.subscribe"
  | _ => false

/-- A request that gets to the handler is no `mining.subscribe`. -/
theorem method_ne_of_dispatch {next : UInt32} {state : SessionState} {req : Sv1Request}
    {d : Dispatch} (h : dispatchRequest next state req = d)
    (hd : ∀ next' state' response, d ≠ .done next' state' response) :
    req.method ≠ "mining.subscribe" :=
  fun hmethod => hd _ _ _ (h.symm.trans (dispatchRequest_of_subscribe next state hmethod))

/-- A step that subscribes takes the counter's value, and no other step changes the counter or the
extranonce1. -/
theorem Session.StepTo.subscribe_cases {shared shared' : Shared} {x x' : Session} {e : SessionEvent}
    (h : StepTo env parseJson shared x e shared' x') :
    (x.subscribes parseJson e = true ∧ shared'.nextExtranonce1 = shared.nextExtranonce1 + 1 ∧
      x'.state.subscribed = true ∧ x'.state.extranonce1 = lowerHex08 shared.nextExtranonce1) ∨
    (x.subscribes parseJson e = false ∧ shared'.nextExtranonce1 = shared.nextExtranonce1 ∧
      x'.state.subscribed = x.state.subscribed ∧ x'.state.extranonce1 = x.state.extranonce1) := by
  cases h with
  | readPending pc poll => exact .inr ⟨by simp [subscribes, nextRequest, poll], rfl, rfl, rfl⟩
  | readEnd pc poll bad =>
    refine .inr ⟨?_, rfl, rfl, rfl⟩
    rcases bad with hbad | rfl
    · simp [subscribes, nextRequest, poll, hbad]
    · have hempty : fromUtf8 [] = some "" := by decide
      have htrim : trim "" = "" := by decide
      simp [subscribes, nextRequest, poll, hempty, htrim]
  | readBlank pc poll text blank =>
    exact .inr ⟨by simp [subscribes, nextRequest, poll, text, blank], rfl, rfl, rfl⟩
  | readInvalid pc poll text blank parse =>
    exact .inr ⟨by simp [subscribes, nextRequest, poll, text, blank, parse], rfl, rfl, rfl⟩
  | @readDone _ _ _ req _ _ _ pc poll text blank parse dispatch =>
    by_cases hmethod : req.method = "mining.subscribe"
    · rw [dispatchRequest_of_subscribe _ _ hmethod] at dispatch
      cases dispatch
      exact .inl ⟨by simp [subscribes, nextRequest, poll, text, blank, parse, hmethod], rfl, rfl,
        rfl⟩
    · have hsub : x.subscribes parseJson .pollRead = false := by
        simp [subscribes, nextRequest, poll, text, blank, parse, hmethod]
      rcases dispatchRequest_eq_done dispatch with ⟨rfl, negotiated, rfl⟩ | ⟨heq, -⟩
      · exact .inr ⟨hsub, rfl, rfl, rfl⟩
      · exact absurd heq hmethod
  | readAuthorize pc poll text blank parse dispatch
  | readSubmit pc poll text blank parse dispatch =>
    have hmethod := method_ne_of_dispatch dispatch (by simp)
    refine .inr ⟨?_, rfl, rfl, rfl⟩
    simp [subscribes, nextRequest, poll, text, blank, parse, hmethod]
  | _ => exact .inr ⟨rfl, rfl, rfl, rfl⟩

/-- The subscriptions of a run: how many there were, and the number of each session's latest one. -/
structure Subscriptions where
  count : Nat := 0
  latest : Nat → Option Nat := fun _ => none

/-- The session that subscribes in the step. -/
def Pool.subscriber (parseJson : String → Option Sv1Request) (p : Pool) : Event → Option Nat
  | .session i e => if (p.sessions[i]?).any (·.subscribes parseJson e) then some i else none
  | _ => none

def Subscriptions.record (parseJson : String → Option Sv1Request) (p : Pool) (e : Event)
    (h : Subscriptions) : Subscriptions :=
  match p.subscriber parseJson e with
  | none => h
  | some i => ⟨h.count + 1, Function.update h.latest i (some h.count)⟩

/-- The pool with its subscriptions. -/
def subscribingMachine (env : PoolEnv) (parseJson : String → Option Sv1Request) :
    Machine (Pool × Subscriptions) Event :=
  (poolMachine env parseJson).track {} (Subscriptions.record parseJson)

/-! ## Issued extranonces -/

/-- The extranonce1 of a session is that of its latest subscription. -/
def Session.Issued (latest : Option Nat) (x : Session) : Prop :=
  match latest with
  | none => x.state.subscribed = false
  | some n => x.state.subscribed = true ∧ x.state.extranonce1 = lowerHex08 (UInt32.ofNat (1 + n))

/-- The counter and the extranonces are those of the subscriptions. -/
structure Pool.Issued (p : Pool) (h : Subscriptions) : Prop where
  counter : p.shared.nextExtranonce1 = UInt32.ofNat (1 + h.count)
  session : ∀ (i : Nat) (x : Session), p.sessions[i]? = some x → x.Issued (h.latest i)
  absent : ∀ i, p.sessions.length ≤ i → h.latest i = none

namespace Pool.Issued

variable {p p' : Pool} {h : Subscriptions}

/-- A new session has not subscribed. -/
theorem connect (hissued : p.Issued h) :
    Pool.Issued { p with sessions := p.sessions ++ [{}] } h := by
  refine ⟨hissued.counter, fun i x hx => ?_, fun i hi => ?_⟩
  · dsimp only at hx
    rw [List.getElem?_append] at hx
    split at hx
    · exact hissued.session i x hx
    · next hi =>
      rw [hissued.absent i (Nat.le_of_not_lt hi)]
      rw [List.getElem?_singleton] at hx
      split at hx
      · cases hx; rfl
      · cases hx
  · refine hissued.absent i ?_
    have hlen : p.sessions.length + 1 ≤ i := by simpa using hi
    omega

/-- A session that subscribes is issued the counter's value. -/
theorem subscribe (hissued : p.Issued h) {shared : Shared} {i : Nat} {x' : Session}
    (hi : i < p.sessions.length) (hnext : shared.nextExtranonce1 = p.shared.nextExtranonce1 + 1)
    (hsubscribed : x'.state.subscribed = true)
    (hextranonce1 : x'.state.extranonce1 = lowerHex08 p.shared.nextExtranonce1) :
    Pool.Issued { p with shared := shared, sessions := p.sessions.set i x' }
      ⟨h.count + 1, Function.update h.latest i (some h.count)⟩ := by
  refine ⟨?_, fun j y hy => ?_, fun j hj => ?_⟩
  · show shared.nextExtranonce1 = _
    rw [hnext, hissued.counter, ← Nat.add_assoc, UInt32.ofNat_add (1 + h.count)]
    rfl
  · rcases Pool.set_eq_some hy with ⟨rfl, rfl⟩ | ⟨hne, hy⟩
    · dsimp only
      rw [Function.update_self]
      exact ⟨hsubscribed, by rw [hextranonce1, hissued.counter]⟩
    · dsimp only
      rw [Function.update_of_ne hne]
      exact hissued.session j y hy
  · have hlen : p.sessions.length ≤ j := by simpa using hj
    dsimp only
    rw [Function.update_of_ne (by omega)]
    exact hissued.absent j hlen

/-- A session that does not subscribe keeps its extranonce1. -/
theorem keep (hissued : p.Issued h) {shared : Shared} {i : Nat} {x x' : Session}
    (get : p.sessions[i]? = some x) (hnext : shared.nextExtranonce1 = p.shared.nextExtranonce1)
    (hsubscribed : x'.state.subscribed = x.state.subscribed)
    (hextranonce1 : x'.state.extranonce1 = x.state.extranonce1) :
    Pool.Issued { p with shared := shared, sessions := p.sessions.set i x' } h := by
  refine ⟨hnext.trans hissued.counter, fun j y hy => ?_, fun j hj => ?_⟩
  · rcases Pool.set_eq_some hy with ⟨rfl, rfl⟩ | ⟨-, hy⟩
    · have hbefore := hissued.session j x get
      unfold Session.Issued at hbefore ⊢
      rw [hsubscribed, hextranonce1]
      exact hbefore
    · exact hissued.session j y hy
  · exact hissued.absent j (by simpa using hj)

theorem step {e : Event} (hissued : p.Issued h) (hstep : p.step env parseJson e = some p') :
    p'.Issued (h.record parseJson p e) := by
  cases Pool.step_cases hstep with
  | pollNothing current => exact hissued
  | pollSame current same => exact hissued
  | pollNew current new =>
    refine ⟨hissued.counter, fun i x hx => ?_, fun i hi => ?_⟩
    · obtain ⟨y, hy, rfl | rfl⟩ := Pool.broadcast_eq_some hx
      · exact hissued.session i _ hy
      · have hbefore := hissued.session i y hy
        exact hbefore
    · exact hissued.absent i (by simpa [broadcast] using hi)
  | connect => exact hissued.connect
  | @session i e x x' shared get step =>
    rcases step.subscribe_cases with ⟨hsub, hnext, hsubscribed, hextranonce1⟩ |
      ⟨hsub, hnext, hsubscribed, hextranonce1⟩
    · have hrecord : h.record parseJson p (.session i e) =
          ⟨h.count + 1, Function.update h.latest i (some h.count)⟩ := by
        simp [Subscriptions.record, Pool.subscriber, get, hsub]
      rw [hrecord]
      exact hissued.subscribe (List.getElem?_eq_some_iff.mp get).1 hnext hsubscribed hextranonce1
    · have hrecord : h.record parseJson p (.session i e) = h := by
        simp [Subscriptions.record, Pool.subscriber, get, hsub]
      rw [hrecord]
      exact hissued.keep get hnext hsubscribed hextranonce1

end Pool.Issued

/-- Behind every run the extranonces are those of the subscriptions. -/
theorem issued_of_runsTo {Ok : Pool × Subscriptions → Event → Prop} {es : List Event}
    {s : Pool × Subscriptions} (h : (subscribingMachine env parseJson).RunsTo Ok es s) :
    s.1.Issued s.2 := by
  have hinit : Pool.Issued {} {} := ⟨rfl, fun i x hx => (by cases hx), fun _ _ => rfl⟩
  refine h.invariant (fun s => s.1.Issued s.2) hinit ?_
  intro s e s' hissued _ htrack
  obtain ⟨p', hstep, rfl⟩ := Option.map_eq_some_iff.mp htrack
  exact hissued.step hstep

/-! ## Disjoint search spaces -/

/-- Two sessions that are open and have subscribed have different extranonces. -/
def DisjointSpaces (p : Pool) : Prop :=
  ∀ (i j : Nat) (x y : Session), i ≠ j → p.sessions[i]? = some x → p.sessions[j]? = some y →
    x.pc.isEnded = false → y.pc.isEnded = false → x.state.subscribed = true →
      y.state.subscribed = true → x.state.extranonce1 ≠ y.state.extranonce1

/-- The latest subscriptions of two open sessions are not a multiple of 2^32 apart. -/
def NoneWrapped (s : Pool × Subscriptions) : Prop :=
  ∀ (i j : Nat) (x y : Session), i ≠ j → s.1.sessions[i]? = some x → s.1.sessions[j]? = some y →
    x.pc.isEnded = false → y.pc.isEnded = false →
      ∀ m ∈ s.2.latest i, ∀ n ∈ s.2.latest j, m % 2 ^ 32 ≠ n % 2 ^ 32

/-- Extranonces are equal just when the counter was at the same value up to its wrap. -/
theorem lowerHex08_ofNat_inj {m n : Nat} :
    lowerHex08 (UInt32.ofNat (1 + m)) = lowerHex08 (UInt32.ofNat (1 + n)) ↔
      m % 2 ^ 32 = n % 2 ^ 32 := by
  rw [Hex.lowerHex08_inj, ← UInt32.toNat_inj, UInt32.toNat_ofNat', UInt32.toNat_ofNat']
  omega

/-- In every reachable state the open sessions have different extranonces just when the numbers of
their latest subscriptions are not a multiple of 2^32 apart. -/
theorem disjointSpaces_iff {es : List Event} {s : Pool × Subscriptions}
    (h : (subscribingMachine env parseJson).RunsTo (fun _ _ => True) es s) :
    DisjointSpaces s.1 ↔ NoneWrapped s := by
  have hissued := issued_of_runsTo h
  refine forall_congr' fun i => forall_congr' fun j => forall_congr' fun x => forall_congr' fun y =>
    forall_congr' fun hij => forall_congr' fun hx => forall_congr' fun hy =>
      forall_congr' fun hox => forall_congr' fun hoy => ?_
  have hIx := hissued.session i x hx
  have hIy := hissued.session j y hy
  cases hm : s.2.latest i with
  | none =>
    rw [hm] at hIx
    simp [show x.state.subscribed = false from hIx]
  | some m =>
    rw [hm] at hIx
    obtain ⟨hsx, hex⟩ := hIx
    cases hn : s.2.latest j with
    | none =>
      rw [hn] at hIy
      simp [show y.state.subscribed = false from hIy]
    | some n =>
      rw [hn] at hIy
      obtain ⟨hsy, hey⟩ := hIy
      simp only [hsx, hsy, hex, hey, forall_const, Option.mem_def, Option.some.injEq, forall_eq',
        ne_eq, lowerHex08_ofNat_inj]

/-- Two sessions subscribe. -/
theorem disjointSpaces_fixture : ∃ s,
    (subscribingMachine fixtureEnv fixtureJson).run ([.connect, .connect] ++
      sendLine 0 subscribeLine ++ sendLine 1 subscribeLine) = some s ∧
    s.2.latest 0 = some 0 ∧ s.2.latest 1 = some 1 ∧ (DisjointSpaces s.1 ↔ NoneWrapped s) := by
  have hany : ((subscribingMachine fixtureEnv fixtureJson).run ([.connect, .connect] ++
      sendLine 0 subscribeLine ++ sendLine 1 subscribeLine)).any (fun s =>
        decide (s.2.latest 0 = some 0 ∧ s.2.latest 1 = some 1)) = true := by
    decide +kernel
  obtain ⟨s, hs, hprops⟩ := (Option.any_eq_true _ _).mp hany
  obtain ⟨h₀, h₁⟩ := of_decide_eq_true hprops
  exact ⟨s, hs, h₀, h₁, disjointSpaces_iff (Machine.runsTo_of_run hs)⟩

/-! ## Around the counter -/

/-- A session sends a `mining.subscribe` and is answered. -/
def subscribeTurn (i : Nat) : List Event :=
  sendLine i subscribeLine ++ [.session i (.written true)]

/-- The pool once a session has been given the counter's value and has become `x`. -/
def Pool.issue (p : Pool) (i : Nat) (x : Session) : Pool :=
  { p with
    shared := { p.shared with nextExtranonce1 := p.shared.nextExtranonce1 + 1 }
    sessions := p.sessions.set i x }

/-- A step of a session is one of the pool. -/
theorem Pool.step_session {p : Pool} {i : Nat} {x x' : Session} {e : SessionEvent} {shared : Shared}
    (get : p.sessions[i]? = some x) (h : x.step env parseJson p.shared e = some (shared, x')) :
    p.step env parseJson (.session i e) =
      some { p with shared := shared, sessions := p.sessions.set i x' } := by
  simp [step, get, h]

/-- So is the next step of the session. -/
theorem Pool.step_session_set {p : Pool} {i : Nat} {x x' : Session} {e : SessionEvent}
    {shared shared' : Shared} (hi : i < p.sessions.length)
    (h : x.step env parseJson shared e = some (shared', x')) :
    step env parseJson { p with shared := shared, sessions := p.sessions.set i x } (.session i e) =
      some { p with shared := shared', sessions := p.sessions.set i x' } := by
  rw [step_session (List.getElem?_set_self hi) h]
  simp

/-- A waiting session that has nothing to read is given the counter's value. -/
theorem foldlM_subscribeTurn {p : Pool} {i : Nat} {x : Session} (get : p.sessions[i]? = some x)
    (hpc : x.pc = .select) (hreader : x.reader = {}) :
    ∃ x' : Session,
      (subscribeTurn i).foldlM (Pool.step fixtureEnv fixtureJson) p = some (p.issue i x') ∧
      x'.pc = .select ∧ x'.reader = {} ∧ x'.state.subscribed = true ∧
      x'.state.extranonce1 = lowerHex08 p.shared.nextExtranonce1 := by
  let bytes := utf8 (subscribeLine ++ "\n")
  have hpoll : (({} : LineReader).arrive bytes).poll = ({}, some bytes) := by decide +kernel
  have htext : fromUtf8 bytes = some (subscribeLine ++ "\n") := by decide +kernel
  have hne : bytes ≠ [] := by decide +kernel
  have htrim : trim (subscribeLine ++ "\n") = subscribeLine := by decide +kernel
  have hblank : subscribeLine ≠ "" := by decide +kernel
  have hparse : fixtureJson subscribeLine = some subscribeRequest := if_pos rfl
  have hi := (List.getElem?_eq_some_iff.mp get).1
  let shared : Shared := { p.shared with nextExtranonce1 := p.shared.nextExtranonce1 + 1 }
  let arrived : Session :=
    { x with reader := ({} : LineReader).arrive bytes, arrived := x.arrived ++ bytes }
  let answered : Session :=
    { arrived with
      reader := {}
      parsed := x.parsed ++ [subscribeLine]
      state := { x.state with
        subscribed := true
        extranonce1 := lowerHex08 p.shared.nextExtranonce1
        extranonce2Size := 4 }
      pc := respond fixtureEnv
        (buildSubscribeResponse subscribeRequest.id (lowerHex08 p.shared.nextExtranonce1)) none }
  have harrive : x.step fixtureEnv fixtureJson p.shared (.arrive bytes) =
      some (p.shared, arrived) := by
    simp [Session.step, hreader, arrived]
  have hread :
      arrived.step fixtureEnv fixtureJson p.shared .pollRead = some (shared, answered) := by
    simp [Session.step, Session.pollRead, Session.handleLine, Session.startRequest, arrived,
      answered, shared, hpc, hpoll, htext, hne, htrim, hblank, hparse,
      dispatchRequest_of_subscribe _ _ (rfl : subscribeRequest.method = "mining.subscribe")]
  refine ⟨answered.wrote (.response (buildSubscribeResponse subscribeRequest.id
    (lowerHex08 p.shared.nextExtranonce1))) [] none, ?_, rfl, rfl, rfl, rfl⟩
  have hwritten : answered.step fixtureEnv fixtureJson shared (.written true) =
      some (shared, answered.wrote (.response (buildSubscribeResponse subscribeRequest.id
        (lowerHex08 p.shared.nextExtranonce1))) [] none) := rfl
  simp only [subscribeTurn, sendLine, List.cons_append, List.nil_append, List.foldlM_cons,
    List.foldlM_nil, Option.bind_eq_bind]
  rw [Pool.step_session get harrive, Option.bind_some, Pool.step_session_set hi hread,
    Option.bind_some, Pool.step_session_set hi hwritten]
  rfl

/-- Two sessions connect, the first one subscribes, and the second one does so `k` times. -/
def subscribeAround (k : Nat) : List Event :=
  [.connect, .connect] ++ subscribeTurn 0 ++ (List.replicate k (subscribeTurn 1)).flatten

/-- Behind these the first session still has the first extranonce, and the second one the last. -/
theorem run_subscribeAround (k : Nat) : ∃ p x y,
    (poolMachine fixtureEnv fixtureJson).run (subscribeAround k) = some p ∧ p.sessions = [x, y] ∧
    p.shared.nextExtranonce1 = UInt32.ofNat (2 + k) ∧
    (x.pc = .select ∧ x.state.subscribed = true ∧ x.state.extranonce1 = lowerHex08 1) ∧
    (y.pc = .select ∧ y.reader = {}) ∧
    (k ≠ 0 → y.state.subscribed = true ∧
      y.state.extranonce1 = lowerHex08 (UInt32.ofNat (1 + k))) := by
  induction k with
  | zero =>
    obtain ⟨x, hturn, hpc, -, hsubscribed, hextranonce1⟩ :=
      foldlM_subscribeTurn (p := { sessions := [{}, {}] }) (i := 0) rfl rfl rfl
    refine ⟨Pool.issue { sessions := [{}, {}] } 0 x, x, {}, ?_, rfl, rfl,
      ⟨hpc, hsubscribed, hextranonce1⟩, ⟨rfl, rfl⟩, fun h => absurd rfl h⟩
    rw [subscribeAround, List.replicate_zero, List.flatten_nil, List.append_nil,
      Machine.run_append]
    exact hturn
  | succ k ih =>
    obtain ⟨p, x, y, hrun, hsessions, hnext, hx, ⟨hpc, hreader⟩, -⟩ := ih
    have hget : p.sessions[1]? = some y := by rw [hsessions]; rfl
    obtain ⟨y', hturn, hpc', hreader', hsubscribed, hextranonce1⟩ :=
      foldlM_subscribeTurn hget hpc hreader
    refine ⟨p.issue 1 y', x, y', ?_, ?_, ?_, hx, ⟨hpc', hreader'⟩, fun _ => ⟨hsubscribed, ?_⟩⟩
    · have hsplit : subscribeAround (k + 1) = subscribeAround k ++ subscribeTurn 1 := by
        simp [subscribeAround, List.replicate_succ']
      rw [hsplit, Machine.run_append, hrun]
      exact hturn
    · rw [Pool.issue, hsessions]
      rfl
    · show p.shared.nextExtranonce1 + 1 = _
      rw [hnext, ← Nat.add_assoc, UInt32.ofNat_add (2 + k)]
      rfl
    · rw [hextranonce1, hnext]
      congr 2
      omega

/-- When the second session has subscribed 2^32 times it has the extranonce of the first one. -/
theorem not_disjointSpaces_fixture : ∃ p,
    (poolMachine fixtureEnv fixtureJson).run (subscribeAround (2 ^ 32)) = some p ∧
      ¬DisjointSpaces p := by
  obtain ⟨p, x, y, hrun, hsessions, -, ⟨hpcx, hsubx, hex⟩, ⟨hpcy, -⟩, hy⟩ :=
    run_subscribeAround (2 ^ 32)
  obtain ⟨hsuby, hey⟩ := hy (by decide)
  refine ⟨p, hrun, fun hdisjoint => ?_⟩
  refine hdisjoint 0 1 x y (by decide) (by rw [hsessions]; rfl) (by rw [hsessions]; rfl)
    (by rw [hpcx]; rfl) (by rw [hpcy]; rfl) hsubx hsuby ?_
  rw [hex, hey]
  rfl

end AzcoinPool
