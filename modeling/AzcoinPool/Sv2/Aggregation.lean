import AzcoinPool.Lib.KeyedState
import AzcoinPool.Lib.RustStd

/-!
# The aggregation engine

`aggregation.rs`: the statistics and the events of each miner, in two maps that every operation
updates together. Each operation touches the entries of one miner, so the engine is a state kept by
miner (`slots_run`), and a run leaves with each miner the tally of its shares and the list of its
events, whatever happened to others in between (`slots_run_new`).
-/

namespace AzcoinPool.Sv2

structure MinerId where
  username : String
  worker : String
  deriving DecidableEq

/-- `ShareRecord`; nothing is computed from the difficulty. -/
structure ShareRecord where
  miner : MinerId
  difficulty : Float
  timestamp : UInt64
  accepted : Bool

inductive RejectionReason where
  | duplicate
  | stale
  | lowDifficulty
  | other (reason : String)

inductive MinerEventKind where
  | registered
  | authorized
  | difficultyAssigned (difficulty : Float)
  | jobObserved (jobId : String)
  | shareSubmitted (difficulty : Float)
  | shareAccepted (difficulty : Float)
  | shareRejected (reason : RejectionReason)

structure MinerEvent where
  timestamp : UInt64
  kind : MinerEventKind

structure MinerStats where
  totalShares : UInt64 := 0
  acceptedShares : UInt64 := 0
  rejectedShares : UInt64 := 0
  lastShareTime : UInt64 := 0
  deriving DecidableEq

/-! ## The engine -/

/-- The engine; a hash map is the function that looks a key up in it. -/
@[ext] structure AggregationEngine where
  miners : MinerId → Option MinerStats
  events : MinerId → Option (List MinerEvent)

/-- `entry(key).or_default()`, and a change of the value through the reference it gives. -/
def entryOrDefault {β : Type} (default : β) (map : MinerId → Option β) (key : MinerId)
    (change : β → β) : MinerId → Option β :=
  Function.update map key (some (change ((map key).getD default)))

/-- The change `record_share` makes of a miner's statistics. -/
def MinerStats.recordShare (stats : MinerStats) (record : ShareRecord) : MinerStats :=
  let stats := { stats with
    totalShares := stats.totalShares + 1
    lastShareTime := record.timestamp }
  if record.accepted then { stats with acceptedShares := stats.acceptedShares + 1 }
  else { stats with rejectedShares := stats.rejectedShares + 1 }

namespace AggregationEngine

def new : AggregationEngine where
  miners := fun _ => none
  events := fun _ => none

def registerMiner (engine : AggregationEngine) (miner : MinerId) : AggregationEngine where
  miners := entryOrDefault {} engine.miners miner id
  events := entryOrDefault [] engine.events miner id

def recordEvent (engine : AggregationEngine) (miner : MinerId) (event : MinerEvent) :
    AggregationEngine where
  miners := entryOrDefault {} engine.miners miner id
  events := entryOrDefault [] engine.events miner (· ++ [event])

def recordShare (engine : AggregationEngine) (record : ShareRecord) : AggregationEngine where
  events := entryOrDefault [] engine.events record.miner id
  miners := entryOrDefault {} engine.miners record.miner (·.recordShare record)

def getStats (engine : AggregationEngine) (miner : MinerId) : Option MinerStats :=
  engine.miners miner

def getEvents (engine : AggregationEngine) (miner : MinerId) : Option (List MinerEvent) :=
  engine.events miner

end AggregationEngine

/-! ## Runs of operations -/

/-- The operations that change an engine. -/
inductive EngineOp where
  | registerMiner (miner : MinerId)
  | recordEvent (miner : MinerId) (event : MinerEvent)
  | recordShare (record : ShareRecord)

namespace EngineOp

/-- The miner an operation names. -/
def miner : EngineOp → MinerId
  | registerMiner miner => miner
  | recordEvent miner _ => miner
  | recordShare record => record.miner

def share? : EngineOp → Option ShareRecord
  | recordShare record => some record
  | _ => none

def event? : EngineOp → Option MinerEvent
  | recordEvent _ event => some event
  | _ => none

end EngineOp

namespace AggregationEngine

def apply (engine : AggregationEngine) : EngineOp → AggregationEngine
  | .registerMiner miner => engine.registerMiner miner
  | .recordEvent miner event => engine.recordEvent miner event
  | .recordShare record => engine.recordShare record

def run (engine : AggregationEngine) (ops : List EngineOp) : AggregationEngine :=
  ops.foldl apply engine

end AggregationEngine

/-- The operations of a sequence that name a miner. -/
def opsOf (miner : MinerId) (ops : List EngineOp) : List EngineOp :=
  ops.filter (·.miner = miner)

/-- The share records of a miner, in order. -/
def sharesOf (miner : MinerId) (ops : List EngineOp) : List ShareRecord :=
  (opsOf miner ops).filterMap EngineOp.share?

/-- The recorded events of a miner, in order. -/
def eventsOf (miner : MinerId) (ops : List EngineOp) : List MinerEvent :=
  (opsOf miner ops).filterMap EngineOp.event?

/-! ## The engine as a state kept by miner -/

/-- What the two maps hold of one miner. -/
abbrev Slot := Option MinerStats × Option (List MinerEvent)

def AggregationEngine.slots (engine : AggregationEngine) (miner : MinerId) : Slot :=
  (engine.miners miner, engine.events miner)

/-- What an operation does to the slot of the miner it names. -/
def EngineOp.act (op : EngineOp) (slot : Slot) : Slot :=
  match op with
  | registerMiner _ => (some (slot.1.getD {}), some (slot.2.getD []))
  | recordEvent _ event => (some (slot.1.getD {}), some (slot.2.getD [] ++ [event]))
  | recordShare record => (some ((slot.1.getD {}).recordShare record), some (slot.2.getD []))

theorem slots_inj {engine engine' : AggregationEngine} :
    engine.slots = engine'.slots ↔ engine = engine' := by
  refine ⟨fun h => ?_, congrArg AggregationEngine.slots⟩
  ext1
  · funext miner
    exact (Prod.mk.inj (congrFun h miner)).1
  · funext miner
    exact (Prod.mk.inj (congrFun h miner)).2

theorem slots_apply (engine : AggregationEngine) (op : EngineOp) :
    (engine.apply op).slots = KeyedState.step EngineOp.miner EngineOp.act engine.slots op := by
  funext miner
  rw [KeyedState.step_apply]
  cases op <;>
    simp only [AggregationEngine.slots, AggregationEngine.apply, AggregationEngine.registerMiner,
      AggregationEngine.recordEvent, AggregationEngine.recordShare, entryOrDefault,
      Function.update_apply, EngineOp.miner, EngineOp.act, id, eq_comm (a := miner)] <;>
    split <;> simp_all

theorem slots_run (engine : AggregationEngine) (ops : List EngineOp) :
    (engine.run ops).slots = KeyedState.run EngineOp.miner EngineOp.act engine.slots ops := by
  induction ops generalizing engine with
  | nil => rfl
  | cons op ops ih =>
    change ((engine.apply op).run ops).slots = _
    rw [ih, slots_apply]
    rfl

/-! ## The slot of a miner after a run -/

/-- The statistics of a list of share records. -/
def tally (shares : List ShareRecord) : MinerStats where
  totalShares := UInt64.ofNat shares.length
  acceptedShares := UInt64.ofNat (shares.countP (·.accepted))
  rejectedShares := UInt64.ofNat (shares.countP (!·.accepted))
  lastShareTime := (shares.getLast?.map (·.timestamp)).getD 0

theorem tally_concat (shares : List ShareRecord) (record : ShareRecord) :
    tally (shares ++ [record]) = (tally shares).recordShare record := by
  cases haccepted : record.accepted <;>
    simp [tally, MinerStats.recordShare, haccepted, UInt64.ofNat_add]

theorem foldl_recordShare (shares before : List ShareRecord) :
    shares.foldl MinerStats.recordShare (tally before) = tally (before ++ shares) := by
  induction shares generalizing before with
  | nil => simp
  | cons record shares ih => rw [List.foldl_cons, ← tally_concat, ih, List.append_assoc]; rfl

/-- Once there is an operation on it, a slot has both its entries, the statistics with the shares
added and the events with the events behind. -/
theorem foldl_act (op : EngineOp) (ops : List EngineOp) (slot : Slot) :
    (op :: ops).foldl (fun slot op => op.act slot) slot =
      (some (((op :: ops).filterMap EngineOp.share?).foldl MinerStats.recordShare
          (slot.1.getD {})),
        some (slot.2.getD [] ++ (op :: ops).filterMap EngineOp.event?)) := by
  induction ops generalizing op slot with
  | nil => cases op <;> simp [EngineOp.act, List.filterMap_cons, EngineOp.share?, EngineOp.event?]
  | cons next ops ih =>
    rw [List.foldl_cons, ih, List.filterMap_cons (a := op), List.filterMap_cons (a := op)]
    cases op <;> simp [EngineOp.act, EngineOp.share?, EngineOp.event?]

/-- A run leaves a miner that is named with the tally of its shares and the list of its events, and
one that is not named without an entry. -/
theorem slots_run_new (ops : List EngineOp) (miner : MinerId) :
    (AggregationEngine.new.run ops).slots miner =
      if opsOf miner ops = [] then (none, none)
      else (some (tally (sharesOf miner ops)), some (eventsOf miner ops)) := by
  rw [slots_run, KeyedState.run_apply]
  change (opsOf miner ops).foldl _ _ = _
  rw [sharesOf, eventsOf]
  cases opsOf miner ops with
  | nil => rfl
  | cons op ops =>
    rw [foldl_act, if_neg (List.cons_ne_nil _ _)]
    have htally := foldl_recordShare ((op :: ops).filterMap EngineOp.share?) []
    rw [List.nil_append] at htally
    rw [← htally]
    rfl

theorem getStats_run_new (ops : List EngineOp) (miner : MinerId) :
    (AggregationEngine.new.run ops).getStats miner =
      if opsOf miner ops = [] then none else some (tally (sharesOf miner ops)) := by
  have h := congrArg Prod.fst (slots_run_new ops miner)
  rw [apply_ite Prod.fst] at h
  exact h

theorem getEvents_run_new (ops : List EngineOp) (miner : MinerId) :
    (AggregationEngine.new.run ops).getEvents miner =
      if opsOf miner ops = [] then none else some (eventsOf miner ops) := by
  have h := congrArg Prod.snd (slots_run_new ops miner)
  rw [apply_ite Prod.snd] at h
  exact h

/-! ## What the engine says of a miner -/

/-- Statistics account for a list of share records: they count the records of each kind without
overflow, and hold the time of the last one. -/
structure AccountsFor (shares : List ShareRecord) (stats : MinerStats) : Prop where
  total_eq : stats.totalShares.toNat = stats.acceptedShares.toNat + stats.rejectedShares.toNat
  total : stats.totalShares.toNat = shares.length
  accepted : stats.acceptedShares.toNat = shares.countP (·.accepted)
  rejected : stats.rejectedShares.toNat = shares.countP (!·.accepted)
  lastShareTime : stats.lastShareTime = (shares.getLast?.map (·.timestamp)).getD 0

theorem accountsFor_tally {shares : List ShareRecord} (h : shares.length < 2 ^ 64) :
    AccountsFor shares (tally shares) := by
  have htotal : (tally shares).totalShares.toNat = shares.length := UInt64.toNat_ofNat_of_lt' h
  have haccepted : (tally shares).acceptedShares.toNat = shares.countP (·.accepted) :=
    UInt64.toNat_ofNat_of_lt' (Nat.lt_of_le_of_lt List.countP_le_length h)
  have hrejected : (tally shares).rejectedShares.toNat = shares.countP (!·.accepted) :=
    UInt64.toNat_ofNat_of_lt' (Nat.lt_of_le_of_lt List.countP_le_length h)
  refine ⟨?_, htotal, haccepted, hrejected, rfl⟩
  rw [htotal, haccepted, hrejected, List.length_eq_countP_add_countP (·.accepted)]
  simp

theorem length_sharesOf_le (miner : MinerId) (ops : List EngineOp) :
    (sharesOf miner ops).length ≤ ops.length :=
  (List.length_filterMap_le _ _).trans (List.length_filter_le _ _)

theorem accountsFor_of_getStats_run_new {ops : List EngineOp} (hlen : ops.length < 2 ^ 64)
    {miner : MinerId} {stats : MinerStats}
    (h : (AggregationEngine.new.run ops).getStats miner = some stats) :
    AccountsFor (sharesOf miner ops) stats := by
  rw [getStats_run_new] at h
  split at h
  · cases h
  · cases h
    exact accountsFor_tally (Nat.lt_of_le_of_lt (length_sharesOf_le miner ops) hlen)

theorem eq_eventsOf_of_getEvents_run_new {ops : List EngineOp} {miner : MinerId}
    {events : List MinerEvent} (h : (AggregationEngine.new.run ops).getEvents miner = some events) :
    events = eventsOf miner ops := by
  rw [getEvents_run_new] at h
  split at h
  · cases h
  · exact (Option.some.inj h).symm

/-! ## Which miners the engine knows -/

theorem opsOf_ne_nil_iff {miner : MinerId} {ops : List EngineOp} :
    opsOf miner ops ≠ [] ↔ ∃ op ∈ ops, op.miner = miner := by
  simp [opsOf, List.filter_eq_nil_iff]

theorem isSome_getStats_run_new (ops : List EngineOp) (miner : MinerId) :
    ((AggregationEngine.new.run ops).getStats miner).isSome = true ↔
      ∃ op ∈ ops, op.miner = miner := by
  rw [getStats_run_new, ← opsOf_ne_nil_iff]
  split <;> simp_all

theorem isSome_getEvents_run_new (ops : List EngineOp) (miner : MinerId) :
    ((AggregationEngine.new.run ops).getEvents miner).isSome = true ↔
      ∃ op ∈ ops, op.miner = miner := by
  rw [getEvents_run_new, ← opsOf_ne_nil_iff]
  split <;> simp_all

/-! ## What a miner's entries depend on -/

theorem slots_run_congr {miner : MinerId} {ops ops' : List EngineOp}
    (h : opsOf miner ops' = opsOf miner ops) (engine : AggregationEngine) :
    (engine.run ops').slots miner = (engine.run ops).slots miner := by
  rw [slots_run, slots_run]
  exact KeyedState.run_apply_congr _ _ h _

theorem run_swap (engine : AggregationEngine) {a b : EngineOp} (h : a.miner ≠ b.miner)
    (pre post : List EngineOp) :
    engine.run (pre ++ a :: b :: post) = engine.run (pre ++ b :: a :: post) := by
  rw [← slots_inj, slots_run, slots_run]
  exact KeyedState.run_swap _ _ h _ _ _

/-- After any operations on a new engine, fewer than a counter can count: a miner has statistics
just when it has events, and that is when it was named; its statistics account for its shares and
its events are those recorded, in order; both depend on nothing but the operations that name it, and
operations on two miners can change places. -/
theorem aggregationEngine_run {ops : List EngineOp} (hlen : ops.length < 2 ^ 64) :
    (∀ miner, ((AggregationEngine.new.run ops).getStats miner).isSome =
        ((AggregationEngine.new.run ops).getEvents miner).isSome ∧
      (((AggregationEngine.new.run ops).getStats miner).isSome = true ↔
        ∃ op ∈ ops, op.miner = miner)) ∧
    (∀ miner stats, (AggregationEngine.new.run ops).getStats miner = some stats →
      AccountsFor (sharesOf miner ops) stats) ∧
    (∀ miner events, (AggregationEngine.new.run ops).getEvents miner = some events →
      events = eventsOf miner ops) ∧
    (∀ miner ops', opsOf miner ops' = opsOf miner ops →
      (AggregationEngine.new.run ops').getStats miner =
          (AggregationEngine.new.run ops).getStats miner ∧
        (AggregationEngine.new.run ops').getEvents miner =
          (AggregationEngine.new.run ops).getEvents miner) ∧
    ∀ pre a b post, ops = pre ++ a :: b :: post → a.miner ≠ b.miner →
      AggregationEngine.new.run (pre ++ b :: a :: post) = AggregationEngine.new.run ops := by
  refine ⟨fun miner => ⟨?_, isSome_getStats_run_new ops miner⟩,
    fun miner stats => accountsFor_of_getStats_run_new hlen,
    fun miner events => eq_eventsOf_of_getEvents_run_new, ?_, ?_⟩
  · rw [Bool.eq_iff_iff, isSome_getStats_run_new, isSome_getEvents_run_new]
  · intro miner ops' hops
    exact Prod.mk.inj (slots_run_congr hops AggregationEngine.new)
  · rintro pre a b post rfl hne
    exact run_swap AggregationEngine.new hne.symm pre post

/-- A share of a miner that is registered only later, a rejected one of another, and an event. -/
theorem aggregationEngine_run_late :
    ∃ stats, (AggregationEngine.new.run
        [.recordShare ⟨⟨"alice", "rig"⟩, 1, 100, true⟩,
          .recordShare ⟨⟨"bob", "rig"⟩, 1, 150, false⟩,
          .registerMiner ⟨"alice", "rig"⟩,
          .recordEvent ⟨"alice", "rig"⟩ ⟨160, .authorized⟩]).getStats ⟨"alice", "rig"⟩ =
        some stats ∧
      AccountsFor [⟨⟨"alice", "rig"⟩, 1, 100, true⟩] stats ∧ stats = ⟨1, 1, 0, 100⟩ := by
  obtain ⟨-, hstats, -⟩ := @aggregationEngine_run
    [.recordShare ⟨⟨"alice", "rig"⟩, 1, 100, true⟩, .recordShare ⟨⟨"bob", "rig"⟩, 1, 150, false⟩,
      .registerMiner ⟨"alice", "rig"⟩, .recordEvent ⟨"alice", "rig"⟩ ⟨160, .authorized⟩] (by decide)
  refine ⟨⟨1, 1, 0, 100⟩, ?_, hstats ⟨"alice", "rig"⟩ ⟨1, 1, 0, 100⟩ ?_, rfl⟩
  · rfl
  · rfl

end AzcoinPool.Sv2
