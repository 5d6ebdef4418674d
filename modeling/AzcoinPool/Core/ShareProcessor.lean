import AzcoinPool.Core.Registry
import AzcoinPool.Lib.Hex

/-!
# Processing shares

`JobAwareShareProcessor`: the checks on a share's shape, the lookup of its job and the validator's
verdict, and the record every result leaves in the buffer of recent shares and at the share sink.
-/

namespace AzcoinPool

/-! ## Recent shares -/

/-- `MAX_RECENT`. -/
def maxRecent : Nat := 100

structure ShareAttempt where
  workerId : String
  jobId : String
  accepted : Bool
  rejectReason : Option String
  deriving DecidableEq

/-- The entries of `RecentSharesBuffer`, oldest first. -/
abbrev RecentSharesBuffer := List ShareAttempt

def RecentSharesBuffer.record (entries : RecentSharesBuffer) (share : ShareSubmission)
    (result : ShareResult) : RecentSharesBuffer :=
  let attempt := {
    workerId := share.worker.id
    jobId := share.jobId
    accepted := result.isAccepted
    rejectReason := result.rejectReason }
  let entries := if maxRecent ≤ entries.length then entries.tail else entries
  entries ++ [attempt]

/-- A call of `ShareSink::submit_share`. -/
structure SinkCall where
  share : ShareSubmission
  result : ShareResult
  poolDifficulty : UInt32
  deriving DecidableEq

/-- What processing leaves behind: the recent shares, and the calls of the sink in order. A failing
call is only logged. -/
structure ShareRecords where
  recent : RecentSharesBuffer
  sinkCalls : List SinkCall

/-- `record_share_result` up to the sink: the attempt is in the buffer. -/
def ShareRecords.buffer (records : ShareRecords) (share : ShareSubmission)
    (result : ShareResult) : ShareRecords :=
  { records with recent := records.recent.record share result }

/-! ## The processor -/

/-- `ShareValidator::validate_share`: job, share, extranonce1, pool difficulty. -/
abbrev ShareValidator := Job → ShareSubmission → Bytes → UInt32 → ShareResult

structure JobAwareShareProcessor where
  shareValidator : Option ShareValidator
  poolDifficulty : UInt32
  /-- Whether a share sink is configured. -/
  shareSink : Bool

/-- The check of the extranonce2 length, made when the context expects one. -/
def rejectExtraNonce2 (ctx : ShareValidationContext) (share : ShareSubmission) :
    Option ShareResult :=
  match ctx.expectedExtraNonce2Len with
  | none => none
  | some expectedLen =>
    if share.extraNonce2.length ≠ expectedLen then
      some (.rejected ("extra_nonce2 must be " ++ expectedLen.repr ++ " bytes, got " ++
        share.extraNonce2.length.repr))
    else none

/-- The check of the version bits against the negotiated mask, made when there are any. -/
def rejectVersionBits (ctx : ShareValidationContext) : Option ShareResult :=
  match ctx.versionBits with
  | none => none
  | some versionBits =>
    match ctx.versionRollingMask with
    | some mask =>
      if versionBits &&& ~~~mask ≠ 0 then
        some (.rejected ("version_bits " ++ lowerHex08 versionBits ++
          " outside negotiated mask " ++ lowerHex08 mask))
      else none
    | none => some (.rejected "version rolling not negotiated")

/-- The checks of `process_share` in front of the job lookup. -/
def rejectShape (share : ShareSubmission) : Option ShareResult :=
  match share.validationContext with
  | none => none
  | some ctx => (rejectExtraNonce2 ctx share).or (rejectVersionBits ctx)

/-- The extranonce1 of a share: decoded from the context, or four zero bytes. -/
def shareExtranonce1 (share : ShareSubmission) : Except Hex.FromHexError Bytes :=
  match share.validationContext.bind (·.extranonce1Hex) with
  | some hex => Hex.decode hex
  | none => .ok [0, 0, 0, 0]

namespace JobAwareShareProcessor

/-- The part of `process_share` behind the job lookup, given what the lookup found. -/
def judge (p : JobAwareShareProcessor) (job? : Option Job) (share : ShareSubmission) :
    ShareResult :=
  match job? with
  | none => .unknownJob ("unknown job_id " ++ share.jobId)
  | some job =>
    match p.shareValidator with
    | none => .accepted
    | some validator =>
      match shareExtranonce1 share with
      | .error _ => .malformed "extranonce1 invalid hex"
      | .ok extranonce1 => validator job share extranonce1 p.poolDifficulty

/-- `record_share_result` behind the buffer: a configured sink is called. -/
def reportShareResult (p : JobAwareShareProcessor) (records : ShareRecords)
    (share : ShareSubmission) (result : ShareResult) : ShareRecords :=
  if p.shareSink then
    { records with sinkCalls := records.sinkCalls ++ [⟨share, result, p.poolDifficulty⟩] }
  else records

def recordShareResult (p : JobAwareShareProcessor) (records : ShareRecords)
    (share : ShareSubmission) (result : ShareResult) : ShareRecords :=
  p.reportShareResult (records.buffer share result) share result

theorem recent_reportShareResult (p : JobAwareShareProcessor) (records : ShareRecords)
    (share : ShareSubmission) (result : ShareResult) :
    (p.reportShareResult records share result).recent = records.recent := by
  rw [reportShareResult]
  split <;> rfl

theorem sinkCalls_reportShareResult (p : JobAwareShareProcessor) (records : ShareRecords)
    (share : ShareSubmission) (result : ShareResult) :
    (p.reportShareResult records share result).sinkCalls = records.sinkCalls ++
      if p.shareSink then [⟨share, result, p.poolDifficulty⟩] else [] := by
  rw [reportShareResult]
  split
  · rfl
  · rw [List.append_nil]

theorem recent_recordShareResult (p : JobAwareShareProcessor) (records : ShareRecords)
    (share : ShareSubmission) (result : ShareResult) :
    (p.recordShareResult records share result).recent = records.recent.record share result :=
  p.recent_reportShareResult _ share result

theorem sinkCalls_recordShareResult (p : JobAwareShareProcessor) (records : ShareRecords)
    (share : ShareSubmission) (result : ShareResult) :
    (p.recordShareResult records share result).sinkCalls = records.sinkCalls ++
      if p.shareSink then [⟨share, result, p.poolDifficulty⟩] else [] :=
  p.sinkCalls_reportShareResult _ share result

/-- `process_share` while no other task changes the registry: the result, and the records with
the result in them. -/
def processShare (p : JobAwareShareProcessor) (registry : ActiveJobRegistry)
    (records : ShareRecords) (share : ShareSubmission) : ShareResult × ShareRecords :=
  let result := (rejectShape share).getD (p.judge (registry.getJob share.jobId) share)
  (result, p.recordShareResult records share result)

/-- The result of `process_share` depends on the share and the registry alone. -/
def verdict (p : JobAwareShareProcessor) (registry : ActiveJobRegistry) (share : ShareSubmission) :
    ShareResult :=
  (rejectShape share).getD (p.judge (registry.getJob share.jobId) share)

theorem processShare_eq (p : JobAwareShareProcessor) (registry : ActiveJobRegistry)
    (records : ShareRecords) (share : ShareSubmission) :
    p.processShare registry records share =
      (p.verdict registry share, p.recordShareResult records share (p.verdict registry share)) :=
  rfl

/-- The records behind calls of `process_share`, each on the registry it finds. -/
def processShares (p : JobAwareShareProcessor) (records : ShareRecords) :
    List (ActiveJobRegistry × ShareSubmission) → ShareRecords
  | [] => records
  | (registry, share) :: calls => p.processShares (p.processShare registry records share).2 calls

/-- With a sink, each call is reported once, in order and on its own. -/
theorem sinkCalls_processShares {p : JobAwareShareProcessor} (hsink : p.shareSink = true)
    (records : ShareRecords) (calls : List (ActiveJobRegistry × ShareSubmission)) :
    (p.processShares records calls).sinkCalls =
      records.sinkCalls ++ calls.map fun c => ⟨c.2, p.verdict c.1 c.2, p.poolDifficulty⟩ := by
  induction calls generalizing records with
  | nil => simp [processShares]
  | cons c calls ih =>
    have hrecord : ((p.processShare c.1 records c.2).2).sinkCalls =
        records.sinkCalls ++ [⟨c.2, p.verdict c.1 c.2, p.poolDifficulty⟩] := by
      rw [processShare_eq, sinkCalls_recordShareResult, if_pos hsink]
    rw [processShares, ih, hrecord, List.map_cons, List.append_assoc, List.singleton_append]

end JobAwareShareProcessor

end AzcoinPool
