import AzcoinPool.Pool.Session
import AzcoinPool.Sv1.Authorization

/-!
# The output of a session

The loop of `handle_sv1_session` with any handler: the inputs are what `select!` hands out one after
the other, and a turn takes one of them, with the answers of the handler, to its end. What is
written is kept with what it is written for. Whatever the inputs, each line that is not blank is
answered once and in order, notifications come behind a successful authorization and an announcement
of the difficulty, a broadcast job is not notified twice in a row, and the handler is told of just
the jobs notified (`outputProtocol`).
-/

namespace AzcoinPool

variable {parseJson : String → Option Sv1Request}

/-! ## The loop -/

/-- What the handler answers to a request, should it be asked. -/
structure HandlerAnswers where
  onAuthorize : String → Except String (Option Job)
  onSubmit : ShareSubmission → ShareResult

/-- What `select!` hands out. -/
inductive LoopInput where
  /-- A line is read, with the value of `NEXT_EXTRANONCE1` at that moment. -/
  | line (text : String) (nextExtranonce1 : UInt32) (answers : HandlerAnswers)
  | job (job : Job)
  | lagged (skipped : Nat)

/-- A line that is written, with what it is written for. -/
inductive WrittenLine where
  /-- The response to a request, or to a line that is none. -/
  | response (req : Option Sv1Request) (response : Sv1Response)
  | setDifficulty
  /-- A notification, of a broadcast job or behind an authorization. -/
  | notify (job : Job) (broadcast : Bool)

/-- The line itself. -/
def WrittenLine.sent (initialDifficulty : UInt32) : WrittenLine → SentLine
  | .response _ r => .response r
  | .setDifficulty => .notification (buildSetDifficultyNotification initialDifficulty)
  | .notify job _ => .notification (buildMiningNotify job)

/-- `dispatch_request`: the job to notify, the response, and the state. -/
def dispatchWith (nextExtranonce1 : UInt32) (state : SessionState) (req : Sv1Request)
    (answers : HandlerAnswers) : Option Job × Sv1Response × SessionState :=
  match dispatchRequest nextExtranonce1 state req with
  | .done _ state response => (none, response, state)
  | .onAuthorize id username =>
    let (state, maybeJob, response) :=
      finishAuthorize state id username (answers.onAuthorize username)
    (maybeJob, response, state)
  | .onSubmit id share => (none, finishSubmit id (answers.onSubmit share), state)

/-- A session between two turns of its loop, with what it has written and the jobs that were passed
to `on_notify_sent`. -/
structure LoopState where
  state : SessionState := {}
  written : List WrittenLine := []
  notifySent : List Job := []

namespace LoopState

def respond (s : LoopState) (req : Option Sv1Request) (response : Sv1Response) : LoopState :=
  { s with written := s.written ++ [.response req response] }

/-- `send_job_notify` and what follows it. -/
def sendJobNotify (s : LoopState) (job : Job) (broadcast : Bool) : LoopState where
  state := { s.state with lastNotifyJobId := some job.jobId }
  written := s.written ++ [.setDifficulty] ++ [.notify job broadcast]
  notifySent := s.notifySent ++ [job]

/-- A turn of the loop. -/
def turn (parseJson : String → Option Sv1Request) (s : LoopState) : LoopInput → LoopState
  | .line text nextExtranonce1 answers =>
    let trimmed := trim text
    if trimmed = "" then s
    else
      match parseJson trimmed with
      | none => s.respond none (buildErrorResponse none (-32700) "Parse error")
      | some req =>
        let (notifyJob, response, state) := dispatchWith nextExtranonce1 s.state req answers
        let s := { s with state := state }.respond (some req) response
        match notifyJob with
        | none => s
        | some job => s.sendJobNotify job false
  | .job job =>
    if s.state.authorizedWorker.isNone then s
    else if s.state.lastNotifyJobId = some job.jobId then s
    else s.sendJobNotify job true
  | .lagged _ => s

end LoopState

def handleSv1Session (parseJson : String → Option Sv1Request) (inputs : List LoopInput) :
    LoopState :=
  inputs.foldl (LoopState.turn parseJson) {}

theorem handleSv1Session_append_singleton (inputs : List LoopInput) (i : LoopInput) :
    handleSv1Session parseJson (inputs ++ [i]) =
      (handleSv1Session parseJson inputs).turn parseJson i := by
  simp [handleSv1Session, List.foldl_append]

/-! ## The protocol -/

/-- What a line that is not blank is to be answered with: the request, if it is one, and its id. -/
def LoopInput.answer (parseJson : String → Option Sv1Request) :
    LoopInput → Option (Option Sv1Request × Option Value)
  | line text _ _ =>
    if trim text = "" then none
    else some (parseJson (trim text), (parseJson (trim text)).bind (·.id))
  | _ => none

namespace WrittenLine

/-- What a response answers, and the id it carries. -/
def answer : WrittenLine → Option (Option Sv1Request × Option Value)
  | .response req r => some (req, r.id)
  | _ => none

/-- The job a notification is of. -/
def job? : WrittenLine → Option Job
  | notify job _ => some job
  | _ => none

/-- The success response to a `mining.authorize`: the request's id, the result `true` and no error.
-/
def IsAuthorized : WrittenLine → Prop
  | .response (some req) r => req.method = "mining.authorize" ∧
      r.id = req.id ∧ r.result = some (.bool true) ∧ r.error = none
  | _ => False

/-- A notification comes behind a success response to a `mining.authorize`, right behind a
`mining.set_difficulty`, and, when it is of a broadcast job, not with the id of the last one. -/
def InPlace (before : List WrittenLine) : WrittenLine → Prop
  | notify job broadcast =>
    (∃ line ∈ before, line.IsAuthorized) ∧ before.getLast? = some .setDifficulty ∧
      (broadcast = true → ∀ last ∈ (before.filterMap job?).getLast?, last.jobId ≠ job.jobId)
  | _ => True

/-- What goes over the wire for the line: the response itself, the difficulty under the method
`mining.set_difficulty`, or parameters that start with the job's id under `mining.notify`. -/
def Sends (initialDifficulty : UInt32) : WrittenLine → SentLine → Prop
  | response _ r, .response r' => r' = r
  | setDifficulty, .notification value =>
    value = .object [("method", .string "mining.set_difficulty"),
      ("params", .array [.ofU32 initialDifficulty])]
  | notify job _, .notification value => ∃ params,
    value = .object [("method", .string "mining.notify"),
      ("params", .array (.string job.jobId :: params))]
  | _, _ => False

theorem sends_sent (initialDifficulty : UInt32) (line : WrittenLine) :
    line.Sends initialDifficulty (line.sent initialDifficulty) := by
  cases line with
  | response => rfl
  | setDifficulty => rfl
  | notify job broadcast => exact ⟨_, rfl⟩

end WrittenLine

/-- Each entry of a list stands in a relation to those before it. -/
def Each {α : Type*} (R : List α → α → Prop) (l : List α) : Prop :=
  ∀ (before : List α) (a : α) (after : List α), l = before ++ a :: after → R before a

theorem each_nil {α : Type*} (R : List α → α → Prop) : Each R [] := by
  intro before a after h
  cases before <;> cases h

theorem each_append_singleton {α : Type*} {R : List α → α → Prop} {l : List α} {a : α} :
    Each R (l ++ [a]) ↔ Each R l ∧ R l a := by
  constructor
  · intro h
    refine ⟨fun before b after hl => h before b (after ++ [a]) ?_, h l a [] rfl⟩
    rw [hl, List.append_assoc, List.cons_append]
  · rintro ⟨hl, ha⟩ before b after hsplit
    rcases List.eq_nil_or_concat after with rfl | ⟨after, c, rfl⟩
    · obtain ⟨rfl, hb⟩ := List.append_inj' hsplit rfl
      cases hb
      exact ha
    · rw [List.concat_eq_append, ← List.cons_append, ← List.append_assoc] at hsplit
      obtain ⟨rfl, -⟩ := List.append_inj' hsplit rfl
      exact hl before b after rfl

/-- What the lines of a session and the jobs passed to its handler are to be. -/
structure OutputProtocol (parseJson : String → Option Sv1Request) (inputs : List LoopInput)
    (s : LoopState) : Prop where
  responses : s.written.filterMap WrittenLine.answer = inputs.filterMap (LoopInput.answer parseJson)
  inPlace : Each WrittenLine.InPlace s.written
  notifySent : s.notifySent = s.written.filterMap WrittenLine.job?
  sends : ∀ line ∈ s.written, ∀ initialDifficulty,
    line.Sends initialDifficulty (line.sent initialDifficulty)

/-! ## Requests -/

/-- Every response carries the id of its request. -/
theorem id_of_dispatchRequest {next next' : UInt32} {state state' : SessionState} {req : Sv1Request}
    {response : Sv1Response} (h : dispatchRequest next state req = .done next' state' response) :
    response.id = req.id := by
  rw [dispatchRequest] at h
  split at h
  · cases h; rfl
  · cases h; rfl
  · cases h; rfl
  · cases h; rfl
  · cases h
  · split at h
    · cases h; rfl
    · split at h
      · cases h; rfl
      · split at h
        · cases h; rfl
        · cases h

theorem id_of_dispatch_onSubmit {next : UInt32} {state : SessionState} {req : Sv1Request}
    {id : Option Value} {share : ShareSubmission}
    (h : dispatchRequest next state req = .onSubmit id share) : id = req.id := by
  rw [dispatchRequest] at h
  split at h
  · cases h
  · cases h
  · cases h
  · cases h
  · cases h
  · split at h
    · cases h
    · split at h
      · cases h
      · split at h
        · cases h
        · cases h; rfl

/-- A request that names a job to notify, or changes the authorized worker, is a `mining.authorize`
that is answered with success; none touches the id of the last job notified. -/
theorem dispatchWith_cases {next : UInt32} {state state' : SessionState} {req : Sv1Request}
    {answers : HandlerAnswers} {notifyJob : Option Job} {response : Sv1Response}
    (h : dispatchWith next state req answers = (notifyJob, response, state')) :
    response.id = req.id ∧ state'.lastNotifyJobId = state.lastNotifyJobId ∧
      ((notifyJob = none ∧ state'.authorizedWorker = state.authorizedWorker) ∨
        (WrittenLine.response (some req) response).IsAuthorized) := by
  unfold dispatchWith at h
  split at h
  · next hdone =>
    cases h
    refine ⟨id_of_dispatchRequest hdone, lastNotifyJobId_of_dispatch_done hdone, .inl ⟨rfl, ?_⟩⟩
    rcases dispatchRequest_eq_done hdone with ⟨-, negotiated, rfl⟩ | ⟨-, -, rfl⟩ <;> rfl
  · next id username hauthorize =>
    obtain ⟨rfl, hmethod, -⟩ := dispatchRequest_eq_onAuthorize.mp hauthorize
    cases hanswer : answers.onAuthorize username with
    | error msg =>
      rw [hanswer] at h
      cases h
      exact ⟨rfl, rfl, .inl ⟨rfl, rfl⟩⟩
    | ok maybeJob =>
      rw [hanswer] at h
      cases h
      exact ⟨rfl, rfl, .inr ⟨hmethod, rfl, rfl, rfl⟩⟩
  · next id share hsubmit =>
    cases h
    refine ⟨?_, rfl, .inl ⟨rfl, rfl⟩⟩
    rw [← id_of_dispatch_onSubmit hsubmit]
    unfold finishSubmit
    split <;> rfl

/-! ## The loop keeps the protocol -/

/-- The protocol, with what the state tells of the lines. -/
structure LoopState.Sound (parseJson : String → Option Sv1Request) (inputs : List LoopInput)
    (s : LoopState) : Prop extends OutputProtocol parseJson inputs s where
  authorized : s.state.authorizedWorker ≠ none → ∃ line ∈ s.written, line.IsAuthorized
  lastNotify : s.state.lastNotifyJobId =
    ((s.written.filterMap WrittenLine.job?).getLast?).map (·.jobId)

namespace LoopState.Sound

variable {inputs : List LoopInput} {s : LoopState}

/-- An input that is not to be answered. -/
theorem skip (h : s.Sound parseJson inputs) {i : LoopInput} (hi : i.answer parseJson = none) :
    s.Sound parseJson (inputs ++ [i]) where
  responses := by rw [h.responses, List.filterMap_append]; simp [hi]
  inPlace := h.inPlace
  notifySent := h.notifySent
  sends := h.sends
  authorized := h.authorized
  lastNotify := h.lastNotify

/-- A line is answered. -/
theorem respond (h : s.Sound parseJson inputs) {i : LoopInput} {req : Option Sv1Request}
    {response : Sv1Response} (hi : i.answer parseJson = some (req, response.id))
    {state : SessionState} (hlast : state.lastNotifyJobId = s.state.lastNotifyJobId)
    (hworker : state.authorizedWorker = s.state.authorizedWorker ∨
      (WrittenLine.response req response).IsAuthorized) :
    ({ s with state := state }.respond req response).Sound parseJson (inputs ++ [i]) where
  responses := by
    rw [LoopState.respond, List.filterMap_append, List.filterMap_append, h.responses]
    simp [WrittenLine.answer, hi]
  inPlace := each_append_singleton.mpr ⟨h.inPlace, trivial⟩
  notifySent := by
    rw [LoopState.respond, List.filterMap_append, ← h.notifySent]
    simp [WrittenLine.job?]
  sends := fun line _ initialDifficulty => line.sends_sent initialDifficulty
  authorized := by
    intro hne
    rcases hworker with hworker | hauthorized
    · obtain ⟨line, hline, hauthorized⟩ := h.authorized (hworker ▸ hne)
      exact ⟨line, List.mem_append_left _ hline, hauthorized⟩
    · exact ⟨_, List.mem_append_right _ (List.mem_singleton_self _), hauthorized⟩
  lastNotify := by
    rw [LoopState.respond, List.filterMap_append]
    simpa [WrittenLine.job?, hlast] using h.lastNotify

/-- A job is notified behind a success response, and a broadcast one only with another id than the
last. -/
theorem sendJobNotify (h : s.Sound parseJson inputs) {job : Job} {broadcast : Bool}
    (hauthorized : ∃ line ∈ s.written, line.IsAuthorized)
    (hfresh : broadcast = true → s.state.lastNotifyJobId ≠ some job.jobId) :
    (s.sendJobNotify job broadcast).Sound parseJson inputs where
  responses := by
    rw [LoopState.sendJobNotify, List.filterMap_append, List.filterMap_append, ← h.responses]
    simp [WrittenLine.answer]
  inPlace := by
    refine each_append_singleton.mpr
      ⟨each_append_singleton.mpr ⟨h.inPlace, trivial⟩, ?_, by simp, fun hbroadcast last hlast => ?_⟩
    · obtain ⟨line, hline, hok⟩ := hauthorized
      exact ⟨line, List.mem_append_left _ hline, hok⟩
    · have hne := hfresh hbroadcast
      rw [List.filterMap_append] at hlast
      have hlast' : (s.written.filterMap WrittenLine.job?).getLast? = some last := by
        simpa [WrittenLine.job?] using hlast
      rw [h.lastNotify, hlast'] at hne
      simpa using hne
  notifySent := by
    rw [LoopState.sendJobNotify, List.filterMap_append, List.filterMap_append, h.notifySent]
    simp [WrittenLine.job?]
  sends := fun line _ initialDifficulty => line.sends_sent initialDifficulty
  authorized := by
    intro _
    obtain ⟨line, hline, hok⟩ := hauthorized
    exact ⟨line, List.mem_append_left _ (List.mem_append_left _ hline), hok⟩
  lastNotify := by
    rw [LoopState.sendJobNotify, List.filterMap_append, List.filterMap_append]
    simp [WrittenLine.job?]

/-- A turn keeps the protocol. -/
theorem turn (h : s.Sound parseJson inputs) (i : LoopInput) :
    (s.turn parseJson i).Sound parseJson (inputs ++ [i]) := by
  cases i with
  | lagged skipped => exact h.skip rfl
  | job job =>
    rw [LoopState.turn]
    split
    · exact h.skip rfl
    · next hworker =>
      split
      · exact h.skip rfl
      · next hlast =>
        have hauthorized := h.authorized fun hnone => hworker (by simp [hnone])
        exact (h.skip (i := .job job) rfl).sendJobNotify hauthorized fun _ => hlast
  | line text next answers =>
    rw [LoopState.turn]
    dsimp only
    split
    · next hblank => exact h.skip (by simp [LoopInput.answer, hblank])
    · next hblank =>
      split
      · next hparse =>
        exact h.respond (by simp [LoopInput.answer, hblank, hparse, buildErrorResponse]) rfl
          (.inl rfl)
      · next req hparse =>
        rcases hdispatch : dispatchWith next s.state req answers with ⟨notifyJob, response, state⟩
        obtain ⟨hid, hlast, hcases⟩ := dispatchWith_cases hdispatch
        have hanswer : LoopInput.answer parseJson (.line text next answers) =
            some (some req, response.id) := by
          simp [LoopInput.answer, hblank, hparse, hid]
        have hrespond := h.respond hanswer hlast (hcases.imp_left And.right)
        cases notifyJob with
        | none => exact hrespond
        | some job =>
          rcases hcases with ⟨hnone, -⟩ | hauthorized
          · cases hnone
          · exact hrespond.sendJobNotify
              ⟨_, List.mem_append_right _ (List.mem_singleton_self _), hauthorized⟩
              (fun hbroadcast => by cases hbroadcast)

end LoopState.Sound

/-- A session keeps the protocol, and its state tells of its lines. -/
theorem sound_handleSv1Session (inputs : List LoopInput) :
    (handleSv1Session parseJson inputs).Sound parseJson inputs := by
  induction inputs using List.reverseRecOn with
  | nil => exact ⟨⟨rfl, each_nil _, rfl, nofun⟩, fun hne => absurd rfl hne, rfl⟩
  | append_singleton inputs i ih =>
    rw [handleSv1Session_append_singleton]
    exact ih.turn i

/-- Whatever the inputs, a session keeps the protocol. -/
theorem outputProtocol (parseJson : String → Option Sv1Request) (inputs : List LoopInput) :
    OutputProtocol parseJson inputs (handleSv1Session parseJson inputs) :=
  (sound_handleSv1Session inputs).toOutputProtocol

end AzcoinPool
