import AzcoinPool.Core.ShareProcessor
import AzcoinPool.Lib.BoundedQueue

/-!
# The history of processed shares

`process_share` with the recording on each of its seven ways out, and with a share sink that may
fail. A failing sink leaves a warning in the log and nothing else. One call records the result it
returns, once (`processShareLogging_eq`), so that behind any history of calls the recent buffer
holds the last hundred attempts in the order of the calls, and a configured sink has been called
once a share with the share's own result (`processCalls_history`).
-/

open BoundedQueue

namespace AzcoinPool

/-! ## One call -/

/-- The fields of the warning "share sink post failed". -/
structure SinkWarning where
  worker : String
  jobId : String
  error : String
  deriving DecidableEq

/-- The records, with the warnings behind failed calls of the sink. -/
structure ShareLog extends ShareRecords where
  warnings : List SinkWarning

def ShareLog.empty : ShareLog := ⟨⟨[], []⟩, []⟩

/-- The entry a share and its result make: it is accepted just when the result is `accepted` or
`block`. -/
def ShareAttempt.of (share : ShareSubmission) (result : ShareResult) : ShareAttempt where
  workerId := share.worker.id
  jobId := share.jobId
  accepted := decide (result = .accepted ∨ result = .block)
  rejectReason := result.rejectReason

/-- The recent buffer is a ring. -/
theorem record_eq_push (entries : RecentSharesBuffer) (share : ShareSubmission)
    (result : ShareResult) :
    entries.record share result = push maxRecent entries (ShareAttempt.of share result) := by
  have haccepted : result.isAccepted = decide (result = .accepted ∨ result = .block) := by
    cases result <;> rfl
  rw [RecentSharesBuffer.record, haccepted]
  rfl

namespace JobAwareShareProcessor

/-- `record_share_result`, given what the sink answers to a call. -/
def logShareResult (p : JobAwareShareProcessor) (sink : SinkCall → Except String Unit)
    (log : ShareLog) (share : ShareSubmission) (result : ShareResult) : ShareLog :=
  let log := { log with recent := log.recent.record share result }
  if p.shareSink then
    let call : SinkCall := ⟨share, result, p.poolDifficulty⟩
    let log := { log with sinkCalls := log.sinkCalls ++ [call] }
    match sink call with
    | .ok () => log
    | .error error =>
      { log with warnings := log.warnings ++ [⟨share.worker.id, share.jobId, error⟩] }
  else log

section
variable (p : JobAwareShareProcessor) (registry : ActiveJobRegistry)
  (sink : SinkCall → Except String Unit) (log : ShareLog) (share : ShareSubmission)

/-- A way out of `process_share`: the result is recorded and returned. -/
def recorded (result : ShareResult) : ShareResult × ShareLog :=
  (result, p.logShareResult sink log share result)

/-- `process_share` behind the checks of the context. -/
def judgeLogging : ShareResult × ShareLog :=
  match registry.getJob share.jobId with
  | none => p.recorded sink log share (.unknownJob ("unknown job_id " ++ share.jobId))
  | some job =>
    match p.shareValidator with
    | some validator =>
      match share.validationContext with
      | some ctx =>
        match ctx.extranonce1Hex with
        | some hex =>
          match Hex.decode hex with
          | .ok b => p.recorded sink log share (validator job share b p.poolDifficulty)
          | .error _ => p.recorded sink log share (.malformed "extranonce1 invalid hex")
        | none => p.recorded sink log share (validator job share [0, 0, 0, 0] p.poolDifficulty)
      | none => p.recorded sink log share (validator job share [0, 0, 0, 0] p.poolDifficulty)
    | none => p.recorded sink log share .accepted

/-- `process_share` from the check of the version bits on. -/
def checkVersionBitsLogging (ctx : ShareValidationContext) : ShareResult × ShareLog :=
  match ctx.versionBits with
  | some versionBits =>
    match ctx.versionRollingMask with
    | some mask =>
      if versionBits &&& ~~~mask ≠ 0 then
        p.recorded sink log share (.rejected ("version_bits " ++ lowerHex08 versionBits ++
          " outside negotiated mask " ++ lowerHex08 mask))
      else p.judgeLogging registry sink log share
    | none => p.recorded sink log share (.rejected "version rolling not negotiated")
  | none => p.judgeLogging registry sink log share

/-- `process_share`, each way out with its own recording. -/
def processShareLogging : ShareResult × ShareLog :=
  match share.validationContext with
  | some ctx =>
    match ctx.expectedExtraNonce2Len with
    | some expectedLen =>
      if share.extraNonce2.length ≠ expectedLen then
        p.recorded sink log share (.rejected ("extra_nonce2 must be " ++ expectedLen.repr ++
          " bytes, got " ++ share.extraNonce2.length.repr))
      else p.checkVersionBitsLogging registry sink log share ctx
    | none => p.checkVersionBitsLogging registry sink log share ctx
  | none => p.judgeLogging registry sink log share

theorem judgeLogging_eq : p.judgeLogging registry sink log share =
    p.recorded sink log share (p.judge (registry.getJob share.jobId) share) := by
  simp only [judgeLogging, judge, shareExtranonce1]
  cases registry.getJob share.jobId with
  | none => rfl
  | some job =>
    cases p.shareValidator with
    | none => rfl
    | some validator =>
      cases share.validationContext with
      | none => rfl
      | some ctx =>
        obtain ⟨_, extranonce1Hex, _, _⟩ := ctx
        cases extranonce1Hex with
        | none => rfl
        | some hex =>
          simp only [Option.bind_some]
          cases Hex.decode hex <;> rfl

theorem checkVersionBitsLogging_eq (ctx : ShareValidationContext) :
    p.checkVersionBitsLogging registry sink log share ctx =
      p.recorded sink log share
        ((rejectVersionBits ctx).getD (p.judge (registry.getJob share.jobId) share)) := by
  rw [checkVersionBitsLogging, rejectVersionBits]
  cases ctx.versionBits with
  | none => exact p.judgeLogging_eq registry sink log share
  | some versionBits =>
    cases ctx.versionRollingMask with
    | none => rfl
    | some mask =>
      dsimp only
      split
      · rfl
      · exact p.judgeLogging_eq registry sink log share

/-- Every way out returns the verdict and records it once. -/
theorem processShareLogging_eq : p.processShareLogging registry sink log share =
    p.recorded sink log share (p.verdict registry share) := by
  rw [processShareLogging, verdict, rejectShape]
  cases share.validationContext with
  | none => exact p.judgeLogging_eq registry sink log share
  | some ctx =>
    have hbits := p.checkVersionBitsLogging_eq registry sink log share ctx
    dsimp only
    rw [rejectExtraNonce2]
    cases ctx.expectedExtraNonce2Len with
    | none => exact hbits
    | some expectedLen =>
      dsimp only
      split
      · rfl
      · exact hbits

/-- Whatever the sink answers, the records are those of the result. -/
theorem toShareRecords_logShareResult (result : ShareResult) :
    (p.logShareResult sink log share result).toShareRecords =
      p.recordShareResult log.toShareRecords share result := by
  rw [logShareResult, recordShareResult, reportShareResult]
  cases p.shareSink with
  | false => rfl
  | true =>
    simp only [if_true]
    split <;> rfl

/-- With the warnings left out this is `processShare`. -/
theorem processShareLogging_eq_processShare :
    ((p.processShareLogging registry sink log share).1,
      (p.processShareLogging registry sink log share).2.toShareRecords) =
      p.processShare registry log.toShareRecords share := by
  rw [processShareLogging_eq, recorded, processShare_eq, toShareRecords_logShareResult]

end

/-! ## A history of calls -/

/-- What a call of `process_share` depends on: a share, the registry, and the validator. -/
structure ShareInputs where
  share : ShareSubmission
  registry : ActiveJobRegistry
  validator : ShareValidator

/-- A call of `process_share`: its inputs, and what the sink answers. -/
structure ShareCall extends ShareInputs where
  sink : SinkCall → Except String Unit

/-- The processor as a call meets it: a configured validator answers as it does in that call. -/
def atCall (p : JobAwareShareProcessor) (c : ShareInputs) : JobAwareShareProcessor :=
  { p with shareValidator := p.shareValidator.map fun _ => c.validator }

def processCall (p : JobAwareShareProcessor) (log : ShareLog) (c : ShareCall) :
    ShareResult × ShareLog :=
  (p.atCall c.toShareInputs).processShareLogging c.registry c.sink log c.share

/-- The results of calls one after the other, and the log behind them. -/
def processCalls (p : JobAwareShareProcessor) (log : ShareLog) :
    List ShareCall → List ShareResult × ShareLog
  | [] => ([], log)
  | c :: calls =>
    let (result, log) := p.processCall log c
    let (results, log) := p.processCalls log calls
    (result :: results, log)

/-- The call of the sink with a share's result. -/
def sinkCall (p : JobAwareShareProcessor) (c : ShareInputs) (result : ShareResult) : SinkCall :=
  ⟨c.share, result, p.poolDifficulty⟩

/-- The verdict on a call's share. -/
def callVerdict (p : JobAwareShareProcessor) (c : ShareInputs) : ShareResult :=
  (p.atCall c).verdict c.registry c.share

/-- A call records the result it returns. -/
theorem processCall_eq (p : JobAwareShareProcessor) (log : ShareLog) (c : ShareCall) :
    (p.processCall log c).1 = p.callVerdict c.toShareInputs ∧
      (p.processCall log c).2.toShareRecords =
        p.recordShareResult log.toShareRecords c.share (p.callVerdict c.toShareInputs) := by
  rw [processCall, processShareLogging_eq]
  exact ⟨rfl, (p.atCall c.toShareInputs).toShareRecords_logShareResult c.sink log c.share _⟩

/-- A history of calls: the verdicts, each recorded in its turn. All of it is a matter of the
inputs. -/
theorem processCalls_eq (p : JobAwareShareProcessor) (log : ShareLog) (calls : List ShareCall) :
    let inputs := calls.map ShareCall.toShareInputs
    (p.processCalls log calls).1 = inputs.map p.callVerdict ∧
      (p.processCalls log calls).2.recent =
        (inputs.map fun c => ShareAttempt.of c.share (p.callVerdict c)).foldl (push maxRecent)
          log.recent ∧
      (p.processCalls log calls).2.sinkCalls = log.sinkCalls ++
        if p.shareSink then inputs.map fun c => p.sinkCall c (p.callVerdict c) else [] := by
  induction calls generalizing log with
  | nil => simp [processCalls]
  | cons c calls ih =>
    obtain ⟨hresult, hrecords⟩ := p.processCall_eq log c
    obtain ⟨ihresults, ihrecent, ihsink⟩ := ih (p.processCall log c).2
    simp only [processCalls, List.map_cons, List.foldl_cons]
    refine ⟨?_, ?_, ?_⟩
    · rw [hresult, ihresults]
    · rw [ihrecent, hrecords, recent_recordShareResult, record_eq_push]
    · rw [ihsink, hrecords, sinkCalls_recordShareResult]
      cases p.shareSink with
      | false => simp
      | true => simp [sinkCall]

/-- Every call appends one entry, with the share's ids and the result it returns. Behind a history
of calls from an empty buffer the recent entries are the last hundred in the order of the calls, a
configured sink was called once in each with the share, the result and the difficulty, and a history
whose sink answers differently has the same results, entries and calls. -/
theorem processCalls_history (p : JobAwareShareProcessor) (calls : List ShareCall) :
    let run := p.processCalls .empty calls
    (∀ log c, (p.processCall log c).2.recent =
      push maxRecent log.recent (ShareAttempt.of c.share (p.processCall log c).1)) ∧
    run.1.length = calls.length ∧
    run.2.recent =
      (List.zipWith (fun c result => ShareAttempt.of c.share result) calls run.1).rtake
        maxRecent ∧
    run.2.recent.length = min calls.length maxRecent ∧
    run.2.sinkCalls =
      (if p.shareSink then List.zipWith (fun c => p.sinkCall c.toShareInputs) calls run.1
        else []) ∧
    ∀ calls' : List ShareCall,
      calls'.map ShareCall.toShareInputs = calls.map ShareCall.toShareInputs →
      let run' := p.processCalls .empty calls'
      run'.1 = run.1 ∧ run'.2.recent = run.2.recent ∧ run'.2.sinkCalls = run.2.sinkCalls := by
  intro run
  obtain ⟨hresults, hrecent, hsink⟩ := p.processCalls_eq .empty calls
  have hzip {β : Type} (f : ShareInputs → ShareResult → β) :
      List.zipWith (fun c => f c.toShareInputs) calls run.1 =
        (calls.map ShareCall.toShareInputs).map fun c => f c (p.callVerdict c) := by
    rw [hresults, List.map_map, List.zipWith_map_right, List.zipWith_self, List.map_map]
    rfl
  have hring : run.2.recent =
      (List.zipWith (fun c result => ShareAttempt.of c.share result) calls run.1).rtake
        maxRecent := by
    rw [hzip fun c => ShareAttempt.of c.share, ← foldl_push (by decide)]
    exact hrecent
  refine ⟨fun log c => ?_, ?_, hring, ?_, ?_, fun calls' hinputs => ?_⟩
  · obtain ⟨hresult, hrecords⟩ := p.processCall_eq log c
    rw [hresult, hrecords, recent_recordShareResult, record_eq_push]
  · rw [hresults, List.length_map, List.length_map]
  · rw [hring, hzip fun c => ShareAttempt.of c.share, length_rtake, List.length_map,
      List.length_map, Nat.min_comm]
  · rw [hzip p.sinkCall]
    exact hsink
  · obtain ⟨hresults', hrecent', hsink'⟩ := p.processCalls_eq .empty calls'
    rw [hinputs] at hresults' hrecent' hsink'
    exact ⟨hresults'.trans hresults.symm, hrecent'.trans hrecent.symm, hsink'.trans hsink.symm⟩

end JobAwareShareProcessor

end AzcoinPool
