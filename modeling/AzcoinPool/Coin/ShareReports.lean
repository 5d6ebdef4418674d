import AzcoinPool.Coin.NodeApi
import AzcoinPool.Coin.ShareClassification

/-!
# The reports of shares

What the pool reports to the node's API over a sequence of `process_share` calls, by any sessions
and on any registry. The pool keeps no record of the shares it has credited: a report is about its
own call, and never says `duplicate`. So a share is credited as often as it is submitted, and no
share is credited twice just when none that is worth credit is submitted twice
(`noDoubleCredit_iff`).
-/

namespace AzcoinPool

/-- What makes two shares the same piece of work. -/
structure ShareKey where
  jobId : String
  extranonce1 : Option Bytes
  extraNonce2 : Bytes
  ntime : UInt32
  nonce : UInt32
  versionBits : Option UInt32
  deriving DecidableEq

/-- The extranonce1 is the one the share is hashed with, supplied or not. -/
def ShareSubmission.key (share : ShareSubmission) : ShareKey where
  jobId := share.jobId
  extranonce1 := (shareExtranonce1 share).toOption
  extraNonce2 := share.extraNonce2
  ntime := share.ntime
  nonce := share.nonce
  versionBits := share.validationContext.bind (·.versionBits)

/-- A share and what is reported of it. -/
structure ShareReport where
  share : ShareSubmission
  request : NodeApiShareRequest
  deriving DecidableEq

/-- The report of a call of the sink, at a time. -/
def SinkCall.report (c : SinkCall) (ts : Int64) : ShareReport :=
  ⟨c.share, buildShareRequest ts c.share c.result c.poolDifficulty⟩

/-- The reports of a sequence of calls of `process_share`, at the times of a clock. -/
def shareReports (doubleSha256 : Bytes → Bytes32) (poolDifficulty : UInt32) (clock : Nat → Int64)
    (calls : List (ActiveJobRegistry × ShareSubmission)) : List ShareReport :=
  (((azcoinShareProcessor doubleSha256 poolDifficulty true).processShares ⟨[], []⟩
    calls).sinkCalls.zipIdx).map fun c => c.1.report (clock c.2)

/-- No report is accepted and not a duplicate when an earlier one of the same share was accepted. -/
def NoDoubleCredit (reports : List ShareReport) : Prop :=
  reports.Pairwise fun earlier later =>
    later.request.accepted = true → later.request.duplicate = false →
      earlier.request.accepted = true → earlier.share.key ≠ later.share.key

instance (reports : List ShareReport) : Decidable (NoDoubleCredit reports) :=
  inferInstanceAs (Decidable (reports.Pairwise _))

/-- The call is worth credit: the hash of the share meets the pool's target or the block's. -/
def WorthCredit (doubleSha256 : Bytes → Bytes32) (poolDifficulty : UInt32)
    (c : ActiveJobRegistry × ShareSubmission) : Prop :=
  shareKind doubleSha256 c.1 c.2 poolDifficulty = .accepted ∨
    shareKind doubleSha256 c.1 c.2 poolDifficulty = .block

theorem ShareResult.isAccepted_iff (result : ShareResult) :
    result.isAccepted = true ↔ result.kind = .accepted ∨ result.kind = .block := by
  cases result <;> simp [isAccepted, kind]

/-- A result is accepted just when the call is worth credit. -/
theorem isAccepted_verdict_iff (doubleSha256 : Bytes → Bytes32) (poolDifficulty : UInt32)
    (c : ActiveJobRegistry × ShareSubmission) :
    ((azcoinShareProcessor doubleSha256 poolDifficulty true).verdict c.1 c.2).isAccepted = true ↔
      WorthCredit doubleSha256 poolDifficulty c := by
  have hkind := processShare_kind doubleSha256 c.1 ⟨[], []⟩ c.2 poolDifficulty true
  rw [JobAwareShareProcessor.processShare_eq] at hkind
  rw [ShareResult.isAccepted_iff, WorthCredit, ← hkind]

/-! ## Credit over a sequence of calls -/

/-- The reports are those of the calls, each on its own. -/
theorem shareReports_eq (doubleSha256 : Bytes → Bytes32) (poolDifficulty : UInt32)
    (clock : Nat → Int64) (calls : List (ActiveJobRegistry × ShareSubmission)) :
    shareReports doubleSha256 poolDifficulty clock calls = calls.zipIdx.map fun c =>
      ⟨c.1.2, buildShareRequest (clock c.2) c.1.2
        ((azcoinShareProcessor doubleSha256 poolDifficulty true).verdict c.1.1 c.1.2)
        poolDifficulty⟩ := by
  rw [shareReports, JobAwareShareProcessor.sinkCalls_processShares rfl, List.nil_append,
    List.zipIdx_map, List.map_map]
  rfl

/-- A relation of neighbours by value is one of the entries. -/
theorem pairwise_zipIdx_iff {α : Type*} {R : α → α → Prop} (l : List α) :
    (l.zipIdx.Pairwise fun a b => R a.1 b.1) ↔ l.Pairwise R := by
  rw [← List.pairwise_map (f := Prod.fst) (R := R), List.zipIdx_map_fst]

/-- Every call is reported on its own, accepted if it is worth credit and never as a duplicate. So
no share is credited twice just when no two calls that are worth credit are of the same share. -/
theorem noDoubleCredit_iff (doubleSha256 : Bytes → Bytes32) (poolDifficulty : UInt32)
    (clock : Nat → Int64) (calls : List (ActiveJobRegistry × ShareSubmission)) :
    (∀ (k : Nat) (c : ActiveJobRegistry × ShareSubmission), calls[k]? = some c →
      ∃ report, (shareReports doubleSha256 poolDifficulty clock calls)[k]? = some report ∧
        report.share = c.2 ∧ (report.request.accepted = true ↔
          WorthCredit doubleSha256 poolDifficulty c) ∧ report.request.duplicate = false) ∧
    (NoDoubleCredit (shareReports doubleSha256 poolDifficulty clock calls) ↔
      calls.Pairwise fun a b => WorthCredit doubleSha256 poolDifficulty a →
        WorthCredit doubleSha256 poolDifficulty b → a.2.key ≠ b.2.key) := by
  rw [shareReports_eq]
  constructor
  · intro k c hc
    refine ⟨_, by rw [List.getElem?_map, List.getElem?_zipIdx, hc]; rfl, rfl, ?_, rfl⟩
    exact isAccepted_verdict_iff doubleSha256 poolDifficulty c
  · rw [NoDoubleCredit, List.pairwise_map, ← pairwise_zipIdx_iff calls]
    refine iff_of_eq (congrArg (List.Pairwise · calls.zipIdx) (funext fun a => funext fun b => ?_))
    simp only [buildShareRequest, isAccepted_verdict_iff, forall_const, eq_iff_iff]
    exact ⟨fun h ha hb => h hb ha, fun h hb ha => h ha hb⟩

/-- The same block submitted twice, on a registry that has its job, is credited twice. -/
theorem not_noDoubleCredit_fixture : ∃ job,
    templateToJob .ofFormat (fixtureTemplate []) fixturePayoutScript = .ok job ∧
    ¬NoDoubleCredit (shareReports (fun _ => Bytes32.fill 0) 1 (fun _ => 0)
      (List.replicate 2 (ActiveJobRegistry.new.register job, fixtureShare job.jobId))) := by
  have hany : (templateToJob .ofFormat (fixtureTemplate []) fixturePayoutScript).toOption.any
      (fun job => decide ¬NoDoubleCredit (shareReports (fun _ => Bytes32.fill 0) 1 (fun _ => 0)
        (List.replicate 2 (ActiveJobRegistry.new.register job, fixtureShare job.jobId)))) =
      true := by
    decide +kernel
  obtain ⟨job, hjob, hnot⟩ := Except.exists_of_any hany
  exact ⟨job, hjob, of_decide_eq_true hnot⟩

end AzcoinPool
