import AzcoinPool.Sv2.Aggregation
import AzcoinPool.Sv2.JobBridge

/-!
# The pool flow

`pool_flow.rs`: a template is bridged to a job and a share is recorded. The flow is given its miner
twice, and reads the statistics of the one after recording the share of the other. For one miner an
error leaves the engine alone and the result has the statistics the share went to; for two it does
so only where the first is known with statistics that happen to be one share ahead of the second's
(`flowContract_iff`).
-/

namespace AzcoinPool.Sv2

structure PoolFlowResult where
  bridge : AzcoinJobBridge
  miner : MinerId
  stats : MinerStats
  deriving DecidableEq

inductive PoolFlowError where
  | bridge (error : BridgeError)
  | minerStatsMissing
  deriving DecidableEq

/-- `run_pool_flow`: what it returns, and the engine it leaves. -/
def runPoolFlow (bitcoin : BitcoinCrate) (template : BlockTemplate) (payoutScriptPubkey : Slice)
    (miner : MinerId) (share : ShareRecord) (engine : AggregationEngine) :
    Except PoolFlowError PoolFlowResult × AggregationEngine :=
  match bridgeBlockTemplate bitcoin template payoutScriptPubkey with
  | .error error => (.error (.bridge error), engine)
  | .ok bridge =>
    let engine := engine.recordShare share
    match engine.getStats miner with
    | none => (.error .minerStatsMissing, engine)
    | some stats => (.ok ⟨bridge, miner, stats⟩, engine)

/-! ## What recording a share does to the statistics -/

theorem getStats_recordShare (engine : AggregationEngine) (share : ShareRecord) :
    (engine.recordShare share).getStats share.miner =
      some (((engine.getStats share.miner).getD {}).recordShare share) :=
  Function.update_self _ _ _

theorem getStats_recordShare_of_ne (engine : AggregationEngine) {share : ShareRecord}
    {miner : MinerId} (h : miner ≠ share.miner) :
    (engine.recordShare share).getStats miner = engine.getStats miner :=
  Function.update_of_ne h _ _

/-- Statistics are ahead of others by one share: one more of its kind, and its time. -/
structure MinerStats.AheadBy (share : ShareRecord) (before stats : MinerStats) : Prop where
  totalShares : stats.totalShares = before.totalShares + 1
  acceptedShares : stats.acceptedShares =
    before.acceptedShares + if share.accepted then 1 else 0
  rejectedShares : stats.rejectedShares =
    before.rejectedShares + if share.accepted then 0 else 1
  lastShareTime : stats.lastShareTime = share.timestamp

/-- Recording a share puts statistics ahead by that share. -/
theorem MinerStats.aheadBy_iff {share : ShareRecord} {before stats : MinerStats} :
    AheadBy share before stats ↔ stats = before.recordShare share := by
  obtain ⟨total, accepted, rejected, time⟩ := stats
  rw [MinerStats.recordShare]
  constructor
  · rintro ⟨htotal, haccepted, hrejected, htime⟩
    split <;> simp_all
  · intro h
    split at h <;> cases h <;> constructor <;> simp_all

/-- A share that is recorded shows. -/
theorem recordShare_ne (engine : AggregationEngine) (share : ShareRecord) :
    engine.recordShare share ≠ engine := by
  intro h
  have hstats := getStats_recordShare engine share
  rw [h] at hstats
  have hahead := MinerStats.aheadBy_iff.mpr (congrArg (Option.getD · {}) hstats)
  exact absurd (UInt64.left_eq_add.mp hahead.totalShares) (by decide)

/-! ## The contract of the flow -/

/-- An error leaves the engine as it was; a result comes with one share record more, and with the
statistics of the miner it was recorded for. -/
def FlowContract (engine : AggregationEngine) (share : ShareRecord)
    (outcome : Except PoolFlowError PoolFlowResult × AggregationEngine) : Prop :=
  (∀ error, outcome.1 = .error error → outcome.2 = engine) ∧
    ∀ result, outcome.1 = .ok result →
      outcome.2 = engine.recordShare share ∧
        outcome.2.getStats share.miner = some result.stats

/-- The flow keeps its contract exactly when the bridge fails, or the two miners are one, or the
miner asked for is known and ahead of the other one by just the share. -/
theorem flowContract_iff (bitcoin : BitcoinCrate) (template : BlockTemplate)
    (payoutScriptPubkey : Slice) (miner : MinerId) (share : ShareRecord)
    (engine : AggregationEngine) :
    FlowContract engine share
        (runPoolFlow bitcoin template payoutScriptPubkey miner share engine) ↔
      (bridgeBlockTemplate bitcoin template payoutScriptPubkey).isOk = false ∨
      miner = share.miner ∨
      ∃ stats, engine.getStats miner = some stats ∧
        MinerStats.AheadBy share ((engine.getStats share.miner).getD {}) stats := by
  simp only [runPoolFlow, MinerStats.aheadBy_iff]
  cases bridgeBlockTemplate bitcoin template payoutScriptPubkey with
  | error error => exact iff_of_true ⟨fun _ _ => rfl, nofun⟩ (.inl rfl)
  | ok bridge =>
    have hself := getStats_recordShare engine share
    by_cases hminer : miner = share.miner
    · subst hminer
      dsimp only
      rw [hself]
      refine iff_of_true ⟨nofun, ?_⟩ (.inr (.inl rfl))
      rintro _ ⟨⟩
      exact ⟨rfl, hself⟩
    · have hother := getStats_recordShare_of_ne engine hminer
      dsimp only
      rw [hother]
      cases hstats : engine.getStats miner with
      | none =>
        -- the share is recorded, and the miner asked for is not known
        refine iff_of_false (fun h => recordShare_ne engine share (h.1 _ rfl)) ?_
        rintro (h | h | ⟨_, h, -⟩)
        · cases h
        · exact hminer h
        · cases h
      | some stats =>
        constructor
        · intro h
          obtain ⟨-, hresult⟩ := h.2 _ rfl
          exact .inr (.inr ⟨stats, rfl, Option.some.inj (hresult.symm.trans hself)⟩)
        · rintro (h | h | ⟨_, ⟨⟩, rfl⟩)
          · cases h
          · exact absurd h hminer
          · refine ⟨nofun, ?_⟩
            rintro _ ⟨⟩
            exact ⟨rfl, hself⟩

/-- The share of one miner and the name of another, unknown one: the flow fails with the share
recorded. -/
theorem not_flowContract_mismatch :
    (runPoolFlow .ofFormat (fixtureTemplate []) fixturePayoutScript ⟨"bob", "rig2"⟩
        ⟨⟨"alice", "rig1"⟩, 1, 1700000001, true⟩ .new).1 = .error .minerStatsMissing ∧
      ((runPoolFlow .ofFormat (fixtureTemplate []) fixturePayoutScript ⟨"bob", "rig2"⟩
        ⟨⟨"alice", "rig1"⟩, 1, 1700000001, true⟩ .new).2.getStats ⟨"alice", "rig1"⟩) =
          some ⟨1, 1, 0, 1700000001⟩ ∧
      ¬ FlowContract .new ⟨⟨"alice", "rig1"⟩, 1, 1700000001, true⟩
        (runPoolFlow .ofFormat (fixtureTemplate []) fixturePayoutScript ⟨"bob", "rig2"⟩
          ⟨⟨"alice", "rig1"⟩, 1, 1700000001, true⟩ .new) := by
  have herror : (runPoolFlow .ofFormat (fixtureTemplate []) fixturePayoutScript ⟨"bob", "rig2"⟩
      ⟨⟨"alice", "rig1"⟩, 1, 1700000001, true⟩ .new).1 = .error .minerStatsMissing := by
    decide +kernel
  have hstats : ((runPoolFlow .ofFormat (fixtureTemplate []) fixturePayoutScript ⟨"bob", "rig2"⟩
      ⟨⟨"alice", "rig1"⟩, 1, 1700000001, true⟩ .new).2.getStats ⟨"alice", "rig1"⟩) =
        some ⟨1, 1, 0, 1700000001⟩ := by
    decide +kernel
  refine ⟨herror, hstats, fun h => ?_⟩
  rw [h.1 _ herror] at hstats
  cases hstats

end AzcoinPool.Sv2
