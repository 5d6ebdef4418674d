import AzcoinPool.Pool.SessionLoop
import AzcoinPool.Pool.Steps

/-!
# The output of a session in the pool

A session of the pool, cut at its awaits, writes what the loop writes that takes each input to its
end: each step of the session keeps it at some inputs of the loop (`Runs.step`). So behind every run
of the pool there are inputs, their lines those the session has parsed, on which the loop writes
what the session has written (`runs_of_runsTo`), and the session's output is that of a protocol
(`sessionOutput_of_runsTo`).
-/

namespace AzcoinPool

variable {env : PoolEnv} {parseJson : String → Option Sv1Request}

/-! ## What is still to come -/

/-- The lines a session is writing. -/
def SessionPc.toWrite : SessionPc → List SentLine
  | .writing line rest _ => line :: rest
  | _ => []

@[simp] theorem toWrite_respond (env : PoolEnv) (response : Sv1Response) (notify : Option Job) :
    (respond env response notify).toWrite = .response response ::
      notify.toList.flatMap fun job => [(notifyLines env job).1, (notifyLines env job).2] := by
  cases notify <;> rfl

@[simp] theorem respond_ne_ended (env : PoolEnv) (response : Sv1Response) (notify : Option Job) :
    respond env response notify ≠ .ended := by
  cases notify <;> simp [respond]

/-- A response is written, and the notification of a job when there is one. -/
def LoopState.answer (r : LoopState) (req : Option Sv1Request) (response : Sv1Response) :
    Option Job → LoopState
  | none => r.respond req response
  | some job => (r.respond req response).sendJobNotify job false

/-- A line that is no request is answered with a parse error. -/
theorem LoopState.turn_invalid {r : LoopState} {text : String} {next : UInt32}
    {answers : HandlerAnswers} (hblank : trim text ≠ "")
    (hparse : parseJson (trim text) = none) :
    r.turn parseJson (.line text next answers) =
      r.answer none (buildErrorResponse none (-32700) "Parse error") none := by
  rw [turn]
  dsimp only
  rw [if_neg hblank, hparse]
  rfl

/-- A line with a request is answered with what the dispatch returns. -/
theorem LoopState.turn_line {r : LoopState} {text : String} {next : UInt32}
    {answers : HandlerAnswers} {req : Sv1Request} {notify : Option Job} {response : Sv1Response}
    {state : SessionState} (hblank : trim text ≠ "") (hparse : parseJson (trim text) = some req)
    (hdispatch : dispatchWith next r.state req answers = (notify, response, state)) :
    r.turn parseJson (.line text next answers) =
      { r with state := state }.answer (some req) response notify := by
  rw [turn]
  dsimp only
  rw [if_neg hblank, hparse]
  dsimp only
  rw [hdispatch]
  cases notify <;> rfl

/-- The state behind the notification of a job. -/
def SessionState.notify (state : SessionState) : Option Job → SessionState
  | none => state
  | some job => { state with lastNotifyJobId := some job.jobId }

/-- A session behind the lines it is writing. -/
structure Session.Matches (env : PoolEnv) (x : Session) (r : LoopState) : Prop where
  state : r.state = x.state.notify x.pc.writingJob
  written : r.written.map (·.sent env.initialDifficulty) = x.written ++ x.pc.toWrite
  notified : r.notifySent = x.notified ++ x.pc.writingJob.toList

namespace Session.Matches

variable {x x' : Session} {r : LoopState}

/-- Nothing changes of what is written or to be written. -/
theorem move (h : x.Matches env r) (hstate : x'.state = x.state) (hwritten : x'.written = x.written)
    (hnotified : x'.notified = x.notified) (htoWrite : x'.pc.toWrite = x.pc.toWrite)
    (hjob : x'.pc.writingJob = x.pc.writingJob) : x'.Matches env r := by
  refine ⟨?_, ?_, ?_⟩
  · rw [hstate, hjob]
    exact h.state
  · rw [hwritten, htoWrite]
    exact h.written
  · rw [hnotified, hjob]
    exact h.notified

/-- A session that writes nothing is to write a response, and a notification when there is a job. -/
theorem respond (h : x.Matches env r) (htoWrite : x.pc.toWrite = []) (hjob : x.pc.writingJob = none)
    (req : Option Sv1Request) (response : Sv1Response) {state : SessionState} {notify : Option Job}
    (hx : x'.pc = AzcoinPool.respond env response notify) (hstate : x'.state = state)
    (hwritten : x'.written = x.written) (hnotified : x'.notified = x.notified) :
    x'.Matches env ({ r with state := state }.answer req response notify) := by
  have hlines := h.written
  have hjobs := h.notified
  rw [htoWrite, List.append_nil] at hlines
  rw [hjob, Option.toList_none, List.append_nil] at hjobs
  cases notify with
  | none =>
    refine ⟨?_, ?_, ?_⟩
    · rw [hx, hstate]
      rfl
    · rw [hx, hwritten, toWrite_respond, LoopState.answer, LoopState.respond, List.map_append,
        hlines]
      rfl
    · rw [hx, hnotified, writingJob_respond, Option.toList_none, List.append_nil]
      exact hjobs
  | some job =>
    refine ⟨?_, ?_, ?_⟩
    · rw [hx, hstate]
      rfl
    · rw [hx, hwritten, toWrite_respond]
      simp only [LoopState.answer, LoopState.sendJobNotify, LoopState.respond, List.map_append,
        hlines, List.append_assoc]
      rfl
    · rw [hx, hnotified, writingJob_respond]
      simp only [LoopState.answer, LoopState.sendJobNotify, LoopState.respond, hjobs,
        Option.toList_some]

/-- A session that writes nothing is to notify its miner of a broadcast job. -/
theorem broadcast (h : x.Matches env r) (hpc : x.pc = .select) {job : Job}
    (hx : x'.pc = .writing (notifyLines env job).1 [(notifyLines env job).2] (some job))
    (hstate : x'.state = x.state) (hwritten : x'.written = x.written)
    (hnotified : x'.notified = x.notified) : x'.Matches env (r.sendJobNotify job true) := by
  have hloop := h.state
  have hlines := h.written
  have hjobs := h.notified
  rw [hpc] at hloop hlines hjobs
  simp only [SessionPc.toWrite, SessionPc.writingJob, Option.toList_none,
    List.append_nil] at hlines hjobs
  refine ⟨?_, ?_, ?_⟩
  · rw [hx, hstate, LoopState.sendJobNotify, hloop]
    rfl
  · rw [hx, hwritten]
    simp only [LoopState.sendJobNotify, List.map_append, hlines, List.append_assoc]
    rfl
  · rw [hx, hnotified, LoopState.sendJobNotify, hjobs]
    rfl

end Session.Matches

/-! ## The inputs of a session -/

/-- What an input passes to JSON parsing. -/
def LoopInput.parsed? : LoopInput → Option String
  | line text _ _ => if trim text = "" then none else some (trim text)
  | _ => none

/-- The lines that were read and are not yet answered, by where a session stands. -/
def SessionPc.Awaits (parseJson : String → Option Sv1Request) (state : SessionState)
    (unanswered : List String) : SessionPc → Prop
  | .authorizing id username => ∃ text next req, trim text ≠ "" ∧ unanswered = [trim text] ∧
      parseJson (trim text) = some req ∧ dispatchRequest next state req = .onAuthorize id username
  | .submitting id _ => ∃ text next req share, trim text ≠ "" ∧ unanswered = [trim text] ∧
      parseJson (trim text) = some req ∧ dispatchRequest next state req = .onSubmit id share
  | .ended => True
  | _ => unanswered = []

/-- A session has run through the inputs but for the unanswered lines: it is where the loop is, or
has ended on the way. -/
structure Session.Runs (env : PoolEnv) (parseJson : String → Option Sv1Request) (x : Session)
    (inputs : List LoopInput) (unanswered : List String) : Prop where
  parsed : x.parsed = inputs.filterMap LoopInput.parsed? ++ unanswered
  awaits : x.pc.Awaits parseJson x.state unanswered
  lines : x.pc ≠ .ended → x.Matches env (handleSv1Session parseJson inputs)
  written : x.written <+:
    (handleSv1Session parseJson inputs).written.map (·.sent env.initialDifficulty)
  notified : x.notified <+: (handleSv1Session parseJson inputs).notifySent

theorem awaits_respond (state : SessionState) (response : Sv1Response) (notify : Option Job) :
    (respond env response notify).Awaits parseJson state [] := by
  cases notify <;> rfl

namespace Session.Runs

variable {x x' : Session} {inputs : List LoopInput} {unanswered : List String}

theorem of_matches (hparsed : x.parsed = inputs.filterMap LoopInput.parsed? ++ unanswered)
    (hawaits : x.pc.Awaits parseJson x.state unanswered)
    (hmatches : x.Matches env (handleSv1Session parseJson inputs)) :
    x.Runs env parseJson inputs unanswered :=
  ⟨hparsed, hawaits, fun _ => hmatches, hmatches.written ▸ List.prefix_append _ _,
    hmatches.notified ▸ List.prefix_append _ _⟩

/-- A session that waits or writes has answered all it has read. -/
theorem eq_nil (h : x.Runs env parseJson inputs unanswered)
    (hpc : x.pc = .select ∨ (∃ job, x.pc = .registering job) ∨
      ∃ line rest notify, x.pc = .writing line rest notify) : unanswered = [] := by
  have hawaits := h.awaits
  rcases hpc with hpc | ⟨job, hpc⟩ | ⟨line, rest, notify, hpc⟩ <;> rw [hpc] at hawaits <;>
    exact hawaits

/-- The session ends. -/
theorem ended (h : x.Runs env parseJson inputs unanswered) (hx : x'.pc = .ended)
    (hparsed : x'.parsed = x.parsed) (hwritten : x'.written = x.written)
    (hnotified : x'.notified = x.notified) : x'.Runs env parseJson inputs unanswered := by
  refine ⟨hparsed.trans h.parsed, ?_, fun hne => absurd hx hne, hwritten ▸ h.written,
    hnotified ▸ h.notified⟩
  rw [hx]
  trivial

/-- A line is answered: with a parse error, or with what the dispatch returns. -/
theorem answered (h : x.Runs env parseJson inputs unanswered) (req : Option Sv1Request)
    (response : Sv1Response) (notify : Option Job) (hne : x.pc ≠ .ended)
    (htoWrite : x.pc.toWrite = []) (hjob : x.pc.writingJob = none) {text : String}
    {next : UInt32} {answers : HandlerAnswers} (hparsed : x'.parsed =
      inputs.filterMap LoopInput.parsed? ++ [trim text]) (hblank : trim text ≠ "")
    (hturn : (handleSv1Session parseJson inputs).turn parseJson (.line text next answers) =
      { handleSv1Session parseJson inputs with state := x'.state }.answer req response notify)
    (hx : x'.pc = respond env response notify) (hwritten : x'.written = x.written)
    (hnotified : x'.notified = x.notified) :
    x'.Runs env parseJson (inputs ++ [.line text next answers]) [] := by
  refine of_matches ?_ ?_ ?_
  · rw [hparsed, List.filterMap_append]
    simp [LoopInput.parsed?, hblank]
  · rw [hx]
    exact awaits_respond _ _ _
  · rw [handleSv1Session_append_singleton, hturn]
    exact (h.lines hne).respond htoWrite hjob req response hx rfl hwritten hnotified

/-- A request is answered behind a call of the handler. -/
theorem dispatched (h : x.Runs env parseJson inputs unanswered) (response : Sv1Response)
    (notify : Option Job) (hne : x.pc ≠ .ended) (htoWrite : x.pc.toWrite = [])
    (hjob : x.pc.writingJob = none) {text : String} {next : UInt32} {answers : HandlerAnswers}
    {req : Sv1Request} (hparsed : x'.parsed =
      inputs.filterMap LoopInput.parsed? ++ [trim text]) (hblank : trim text ≠ "")
    (hparse : parseJson (trim text) = some req)
    (hdispatch : dispatchWith next x.state req answers = (notify, response, x'.state))
    (hx : x'.pc = respond env response notify) (hwritten : x'.written = x.written)
    (hnotified : x'.notified = x.notified) :
    x'.Runs env parseJson (inputs ++ [.line text next answers]) [] := by
  have hstate := (h.lines hne).state
  rw [hjob] at hstate
  have hdispatch' : dispatchWith next (handleSv1Session parseJson inputs).state req answers =
      (notify, response, x'.state) := by
    rw [hstate]
    exact hdispatch
  exact h.answered (some req) response notify hne htoWrite hjob hparsed hblank
    (LoopState.turn_line hblank hparse hdispatch') hx hwritten hnotified

/-- `on_submit` returns. -/
theorem finish (h : x.Runs env parseJson inputs unanswered) {id : Option Value}
    {stage : SubmitStage} (hpc : x.pc = .submitting id stage) (result : ShareResult) :
    ∃ inputs', (x.finish env id result).Runs env parseJson inputs' [] := by
  have hawaits := h.awaits
  rw [hpc] at hawaits
  obtain ⟨text, next, req, share, hblank, rfl, hparse, hdispatch⟩ := hawaits
  refine ⟨inputs ++ [.line text next ⟨fun _ => .ok none, fun _ => result⟩], ?_⟩
  refine h.dispatched (finishSubmit id result) none (by simp [hpc]) (by rw [hpc]; rfl)
    (by rw [hpc]; rfl) h.parsed hblank hparse ?_ rfl rfl rfl
  rw [dispatchWith, hdispatch]
  rfl

/-- In `select!` a session has the state of the loop. -/
theorem state_eq (h : x.Runs env parseJson inputs unanswered) (hpc : x.pc = .select) :
    (handleSv1Session parseJson inputs).state = x.state := by
  have hstate := (h.lines (by simp [hpc])).state
  rw [hpc] at hstate
  exact hstate

/-- A line that is no request is read. -/
theorem invalid (h : x.Runs env parseJson inputs []) (hpc : x.pc = .select) {text : String}
    {next : UInt32} {answers : HandlerAnswers} (hblank : trim text ≠ "")
    (hparse : parseJson (trim text) = none)
    (hx : x'.pc = respond env (buildErrorResponse none (-32700) "Parse error") none)
    (hstate : x'.state = x.state) (hparsed : x'.parsed = x.parsed ++ [trim text])
    (hwritten : x'.written = x.written) (hnotified : x'.notified = x.notified) :
    x'.Runs env parseJson (inputs ++ [.line text next answers]) [] := by
  refine h.answered none (buildErrorResponse none (-32700) "Parse error") none (by simp [hpc])
    (by rw [hpc]; rfl) (by rw [hpc]; rfl) (by simp [hparsed, h.parsed]) hblank ?_ hx hwritten
    hnotified
  rw [LoopState.turn_invalid hblank hparse, hstate, ← h.state_eq hpc]

/-- A broadcast job is received that is to be notified. -/
theorem received (h : x.Runs env parseJson inputs []) (hpc : x.pc = .select) {job : Job}
    (hauthorized : x.state.authorizedWorker ≠ none)
    (hfresh : x.state.lastNotifyJobId ≠ some job.jobId)
    (hx : x'.pc = .writing (notifyLines env job).1 [(notifyLines env job).2] (some job))
    (hstate : x'.state = x.state) (hparsed : x'.parsed = x.parsed)
    (hwritten : x'.written = x.written) (hnotified : x'.notified = x.notified) :
    x'.Runs env parseJson (inputs ++ [.job job]) [] := by
  refine of_matches ?_ (by rw [hx]; rfl) ?_
  · rw [hparsed, List.filterMap_append]
    exact h.parsed.trans (by simp [LoopInput.parsed?])
  · have hworker : x.state.authorizedWorker.isNone = false :=
      Option.isNone_eq_false_iff.mpr (Option.isSome_iff_ne_none.mpr hauthorized)
    rw [← h.state_eq hpc] at hworker hfresh
    rw [handleSv1Session_append_singleton, LoopState.turn, hworker, if_neg hfresh]
    exact (h.lines (by simp [hpc])).broadcast hpc hx hstate hwritten hnotified

/-- A line is written. -/
theorem wrote (h : x.Runs env parseJson inputs unanswered) {line : SentLine}
    {rest : List SentLine} {notify : Option Job} (hpc : x.pc = .writing line rest notify) :
    ∃ inputs' unanswered', (x.wrote line rest notify).Runs env parseJson inputs' unanswered' := by
  have hmatches := h.lines (by simp [hpc])
  have hstate := hmatches.state
  have hlines := hmatches.written
  have hjobs := hmatches.notified
  rw [hpc] at hstate hlines hjobs
  refine ⟨inputs, unanswered, ?_⟩
  have hnil := h.eq_nil (.inr (.inr ⟨_, _, _, hpc⟩))
  cases rest with
  | cons next rest =>
    refine of_matches h.parsed hnil ⟨hstate, ?_, hjobs⟩
    rw [hlines]
    simp [Session.wrote, SessionPc.toWrite]
  | nil =>
    cases notify with
    | none =>
      refine of_matches h.parsed hnil ⟨hstate, ?_, hjobs⟩
      rw [hlines]
      simp [Session.wrote, SessionPc.toWrite]
    | some job =>
      refine of_matches h.parsed hnil ⟨hstate, ?_, ?_⟩
      · rw [hlines]
        simp [Session.wrote, SessionPc.toWrite]
      · rw [hjobs]
        simp [Session.wrote, SessionPc.writingJob]

/-- A step keeps the session at some inputs. -/
theorem step (h : x.Runs env parseJson inputs unanswered) {shared shared' : Shared}
    {e : SessionEvent} (hstep : StepTo env parseJson shared x e shared' x') :
    ∃ inputs' unanswered', x'.Runs env parseJson inputs' unanswered' := by
  cases hstep with
  | arrive | peerClose | readPending | readBlank | recvLagged | recvSkip =>
    exact ⟨inputs, unanswered, h.parsed, h.awaits,
      fun hne => (h.lines hne).move rfl rfl rfl rfl rfl, h.written, h.notified⟩
  | readEnd | panicked | writeFailed => exact ⟨inputs, unanswered, h.ended rfl rfl rfl rfl⟩
  | @readInvalid _ _ text pc _ _ blank parse =>
    obtain rfl := h.eq_nil (.inl pc)
    refine ⟨inputs ++ [.line text 0 ⟨fun _ => .ok none, fun _ => .accepted⟩], [], ?_⟩
    exact h.invalid pc blank parse rfl rfl rfl rfl rfl
  | @readDone _ _ text req next state response pc _ _ blank parse dispatch =>
    obtain rfl := h.eq_nil (.inl pc)
    refine ⟨inputs ++ [.line text shared.nextExtranonce1 ⟨fun _ => .ok none, fun _ => .accepted⟩],
      [], ?_⟩
    refine h.dispatched response none (by simp [pc]) (by rw [pc]; rfl) (by rw [pc]; rfl)
      (by simp [h.parsed]) blank parse ?_ rfl rfl rfl
    rw [dispatchWith, dispatch]
  | @readAuthorize _ _ text req id username pc _ _ blank parse dispatch =>
    obtain rfl := h.eq_nil (.inl pc)
    refine ⟨inputs, [trim text], of_matches (by simp [h.parsed])
      ⟨text, _, req, blank, rfl, parse, dispatch⟩ ?_⟩
    exact (h.lines (by simp [pc])).move rfl rfl rfl (by rw [pc]; rfl) (by rw [pc]; rfl)
  | @readSubmit _ _ text req id share pc _ _ blank parse dispatch =>
    obtain rfl := h.eq_nil (.inl pc)
    refine ⟨inputs, [trim text], of_matches (by simp [h.parsed])
      ⟨text, _, req, share, blank, rfl, parse, dispatch⟩ ?_⟩
    exact (h.lines (by simp [pc])).move rfl rfl rfl (by rw [pc]; rfl) (by rw [pc]; rfl)
  | @recvNotify _ job pc _ authorized fresh =>
    obtain rfl := h.eq_nil (.inl pc)
    refine ⟨inputs ++ [.job job], [], ?_⟩
    exact h.received pc authorized fresh rfl rfl rfl rfl rfl
  | @authorized template id username pc =>
    have hawaits := h.awaits
    rw [pc] at hawaits
    obtain ⟨text, next, req, hblank, rfl, hparse, hdispatch⟩ := hawaits
    refine ⟨inputs ++
      [.line text next ⟨fun _ => .ok (env.currentJob template), fun _ => .accepted⟩], [], ?_⟩
    refine h.dispatched (buildAuthorizeSuccess id) (env.currentJob template) (by simp [pc])
      (by rw [pc]; rfl) (by rw [pc]; rfl) h.parsed hblank hparse ?_ rfl rfl rfl
    rw [dispatchWith, hdispatch]
    rfl
  | notSubmitted pc _ | reported pc _ | relookupNone pc _ | blockSubmitted pc =>
    obtain ⟨inputs', hfinish⟩ := h.finish pc _
    exact ⟨inputs', [], hfinish⟩
  | submitted pc _ | lookup pc | recorded pc | reportedBlock pc | relookup pc _ =>
    refine ⟨inputs, unanswered, of_matches h.parsed ?_ ?_⟩
    · have hawaits := h.awaits
      rw [pc] at hawaits
      exact hawaits
    · exact (h.lines (by simp [pc])).move rfl rfl rfl (by rw [pc]; rfl) (by rw [pc]; rfl)
  | registered pc =>
    refine ⟨inputs, unanswered, of_matches h.parsed (h.eq_nil (.inr (.inl ⟨_, pc⟩))) ?_⟩
    exact (h.lines (by simp [pc])).move rfl rfl rfl (by rw [pc]; rfl) (by rw [pc]; rfl)
  | wroteNext pc => exact h.wrote pc
  | wroteResponse pc => exact h.wrote pc
  | wroteNotify pc => exact h.wrote pc

end Session.Runs

/-- Behind every run, a session is at some inputs of the loop. -/
theorem runs_of_runsTo {Ok : Pool → Event → Prop} {es : List Event} {p : Pool}
    (h : (poolMachine env parseJson).RunsTo Ok es p) {s : Nat} {x : Session}
    (hx : p.sessions[s]? = some x) :
    ∃ inputs unanswered, x.Runs env parseJson inputs unanswered := by
  refine session_invariant
    (I := fun x => ∃ inputs unanswered, x.Runs env parseJson inputs unanswered)
    ⟨[], [], Session.Runs.of_matches rfl rfl ⟨rfl, rfl, rfl⟩⟩ ?_ ?_ h hx
  · rintro es p x x' e shared - - - ⟨inputs, unanswered, hruns⟩ hstep
    exact hruns.step hstep
  · rintro x template job ⟨inputs, unanswered, hruns⟩ -
    exact ⟨inputs, unanswered, hruns.parsed, hruns.awaits,
      fun hne => (hruns.lines hne).move rfl rfl rfl rfl rfl, hruns.written, hruns.notified⟩

/-- In the pool, what a session has written is the beginning of an output that keeps the protocol,
and the whole of it when the session waits in `select!`. -/
theorem sessionOutput_of_runsTo {Ok : Pool → Event → Prop} {es : List Event} {p : Pool}
    (h : (poolMachine env parseJson).RunsTo Ok es p) {s : Nat} {x : Session}
    (hx : p.sessions[s]? = some x) : ∃ (inputs : List LoopInput) (r : LoopState),
      OutputProtocol parseJson inputs r ∧
      x.written <+: r.written.map (·.sent env.initialDifficulty) ∧ x.notified <+: r.notifySent ∧
      (x.pc = .select → x.parsed = inputs.filterMap LoopInput.parsed? ∧
        x.written = r.written.map (·.sent env.initialDifficulty) ∧ x.notified = r.notifySent) := by
  obtain ⟨inputs, unanswered, hruns⟩ := runs_of_runsTo h hx
  refine ⟨inputs, handleSv1Session parseJson inputs,
    (sound_handleSv1Session inputs).toOutputProtocol, hruns.written, hruns.notified, fun hpc => ?_⟩
  have hmatches := hruns.lines (by simp [hpc])
  have hparsed := hruns.parsed
  have hlines := hmatches.written
  have hjobs := hmatches.notified
  rw [hruns.eq_nil (.inl hpc), List.append_nil] at hparsed
  rw [hpc] at hlines hjobs
  exact ⟨hparsed, by simpa [SessionPc.toWrite] using hlines.symm,
    by simpa [SessionPc.writingJob] using hjobs.symm⟩

end AzcoinPool
