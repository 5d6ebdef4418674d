import AzcoinPool.Core.ShareHistory
import AzcoinPool.Lib.Flow
import AzcoinPool.Pool.PayoutSafety
import AzcoinPool.Pool.SearchSpaces

/-!
# The ledger of shares

The life of every share over a run of the pool: it is dispatched to `on_submit`, its verdict is
recorded in the buffer and reported to the sink, its miner is answered (`Ledger`). No interleaving
of the sessions loses a share or counts one twice: each dispatched share is recorded once or still
on its way there, so is each recorded verdict reported, and for each reported verdict the miner is
sent one response, which tells it. The buffer has the last of the recorded verdicts, the sink all of
the reported ones, in the order of the steps (`ledger_of_runsTo`).
-/

open BoundedQueue

namespace AzcoinPool

variable {env : PoolEnv} {parseJson : String → Option Sv1Request}

/-! ## What a miner is told -/

/-- What a miner is told of a share. -/
inductive Told where
  | accepted
  | refused (reason : String)
  deriving DecidableEq

/-- What a verdict has to tell: a block is an accepted share, and all others come with a reason. -/
def ShareResult.told : ShareResult → Told
  | .accepted => .accepted
  | .block => .accepted
  | .lowDifficulty reason => .refused reason
  | .malformed reason => .refused reason
  | .unknownJob reason => .refused reason
  | .rejected reason => .refused reason

/-- What a response tells of a share: the result `true` without an error accepts it, the error -1
without a result refuses it, and no other response tells anything. -/
def Sv1Response.told (response : Sv1Response) : Option Told :=
  match response.result, response.error with
  | some (.bool true), none => some .accepted
  | none, some error => if error.code = -1 then some (.refused error.message) else none
  | _, _ => none

/-- What `on_submit` returns is told. -/
theorem told_finishSubmit (id : Option Value) (result : ShareResult) :
    (finishSubmit id result).told = some result.told := by
  cases result <;> rfl

/-! ## What a step adds -/

/-- A share with its verdict. -/
abbrev JudgedShare := ShareSubmission × ShareResult

/-- A share with the response to it. -/
abbrev AnsweredShare := ShareSubmission × Sv1Response

def JudgedShare.told (v : JudgedShare) : ShareSubmission × Option Told := (v.1, some v.2.told)

def AnsweredShare.told (a : AnsweredShare) : ShareSubmission × Option Told := (a.1, a.2.told)

/-- The shares that were dispatched, recorded, reported and answered, in the order of the steps. -/
structure Ledger where
  dispatched : List ShareSubmission := []
  recorded : List JudgedShare := []
  reported : List JudgedShare := []
  answered : List AnsweredShare := []

/-- The response that the session is writing. -/
def SessionPc.response : SessionPc → Option Sv1Response
  | .writing (.response response) _ _ => some response
  | _ => none

@[simp] theorem SessionPc.response_respond (env : PoolEnv) (response : Sv1Response)
    (notify : Option Job) : (respond env response notify).response = some response := by
  cases notify <;> rfl

namespace Session

/-- The share of a `mining.submit` that the step reads and passes to `on_submit`. -/
def dispatching (parseJson : String → Option Sv1Request) (shared : Shared) (x : Session) :
    SessionEvent → Option ShareSubmission
  | .pollRead => (x.nextRequest parseJson).bind fun req =>
      (dispatchRequest shared.nextExtranonce1 x.state req).submitted
  | _ => none

/-- The verdict that the step puts into the buffer. -/
def recording (x : Session) : SessionEvent → Option JudgedShare
  | .proceed =>
    match x.pc with
    | .submitting _ (.recording share result _) => some (share, result)
    | _ => none
  | _ => none

/-- The verdict that the step passes to the sink, if there is one. -/
def reporting (x : Session) : SessionEvent → Option JudgedShare
  | .proceed =>
    match x.pc with
    | .submitting _ (.reporting share result _) => some (share, result)
    | _ => none
  | _ => none

/-- The share whose `on_submit` returns in the step, with the response the session then writes. -/
def answering (env : PoolEnv) (parseJson : String → Option Sv1Request) (shared : Shared)
    (x : Session) (e : SessionEvent) : Option AnsweredShare :=
  match x.pc, x.step env parseJson shared e with
  | .submitting _ stage, some (_, x') => x'.pc.response.map (stage.share, ·)
  | _, _ => none

end Session

/-- The ledger behind a step of the pool. -/
def Ledger.record (env : PoolEnv) (parseJson : String → Option Sv1Request) (p : Pool) (e : Event)
    (h : Ledger) : Ledger :=
  match e with
  | .session s e =>
    match p.sessions[s]? with
    | none => h
    | some x => {
        dispatched := h.dispatched ++ (x.dispatching parseJson p.shared e).toList
        recorded := h.recorded ++ (x.recording e).toList
        reported := h.reported ++ (x.reporting e).toList
        answered := h.answered ++ (x.answering env parseJson p.shared e).toList }
  | _ => h

/-- The pool with its ledger. -/
def ledgerMachine (env : PoolEnv) (parseJson : String → Option Sv1Request) :
    Machine (Pool × Ledger) Event :=
  (poolMachine env parseJson).track {} (Ledger.record env parseJson)

/-! ## Shares in flight -/

/-- The share that is dispatched and not yet recorded. -/
def SessionPc.unrecorded : SessionPc → List ShareSubmission
  | .submitting _ (.lookup share) | .submitting _ (.recording share _ _) => [share]
  | _ => []

/-- The verdict that is recorded and not yet reported. -/
def SessionPc.unreported : SessionPc → List JudgedShare
  | .submitting _ (.reporting share result _) => [(share, result)]
  | _ => []

/-- The verdict that is reported and not yet answered. -/
def SessionPc.unanswered : SessionPc → List JudgedShare
  | .submitting _ (.relookup share _) | .submitting _ (.fetching share _ _)
  | .submitting _ (.submitting share _ _) => [(share, .block)]
  | _ => []

@[simp] theorem SessionPc.unrecorded_respond (env : PoolEnv) (response : Sv1Response)
    (notify : Option Job) : (respond env response notify).unrecorded = [] := by
  cases notify <;> rfl

@[simp] theorem SessionPc.unreported_respond (env : PoolEnv) (response : Sv1Response)
    (notify : Option Job) : (respond env response notify).unreported = [] := by
  cases notify <;> rfl

@[simp] theorem SessionPc.unanswered_respond (env : PoolEnv) (response : Sv1Response)
    (notify : Option Job) : (respond env response notify).unanswered = [] := by
  cases notify <;> rfl

@[simp] theorem SessionPc.unrecorded_start (id : Option Value) (share : ShareSubmission) :
    (SessionPc.submitting id (.start share)).unrecorded = [share] := by
  rw [SubmitStage.start]
  split <;> rfl

@[simp] theorem SessionPc.unreported_start (id : Option Value) (share : ShareSubmission) :
    (SessionPc.submitting id (.start share)).unreported = [] := by
  rw [SubmitStage.start]
  split <;> rfl

@[simp] theorem SessionPc.unanswered_start (id : Option Value) (share : ShareSubmission) :
    (SessionPc.submitting id (.start share)).unanswered = [] := by
  rw [SubmitStage.start]
  split <;> rfl

namespace Session

variable {shared shared' : Shared} {x x' : Session} {e : SessionEvent}

@[simp] theorem response_finish (env : PoolEnv) (x : Session) (id : Option Value)
    (result : ShareResult) : (x.finish env id result).pc.response = some (finishSubmit id result) :=
  SessionPc.response_respond env (finishSubmit id result) none

@[simp] theorem unanswered_finish (env : PoolEnv) (x : Session) (id : Option Value)
    (result : ShareResult) : (x.finish env id result).pc.unanswered = [] :=
  SessionPc.unanswered_respond env (finishSubmit id result) none

/-- A step that dispatches a share starts its `on_submit`, and no other step starts one. -/
theorem StepTo.dispatching_cases (h : StepTo env parseJson shared x e shared' x') :
    (∃ id share, e = .pollRead ∧ x.pc = .select ∧ x'.pc = .submitting id (.start share) ∧
      x.dispatching parseJson shared e = some share) ∨
    (x.dispatching parseJson shared e = none ∧
      ∀ id share, x.pc = .select → x'.pc ≠ .submitting id (.start share)) := by
  cases h with
  | readSubmit pc poll text blank parse dispatch =>
    refine .inl ⟨_, _, rfl, pc, rfl, ?_⟩
    simp [dispatching, nextRequest, poll, text, blank, parse, dispatch, Dispatch.submitted]
  | readPending pc poll =>
    exact .inr ⟨by simp [dispatching, nextRequest, poll], by simp [pc]⟩
  | readEnd pc poll bad =>
    refine .inr ⟨?_, by simp⟩
    rcases bad with hbad | rfl
    · simp [dispatching, nextRequest, poll, hbad]
    · have hempty : fromUtf8 [] = some "" := by decide
      have htrim : trim "" = "" := by decide
      simp [dispatching, nextRequest, poll, hempty, htrim]
  | readBlank pc poll text blank =>
    exact .inr ⟨by simp [dispatching, nextRequest, poll, text, blank], by simp [pc]⟩
  | readInvalid pc poll text blank parse =>
    exact .inr ⟨by simp [dispatching, nextRequest, poll, text, blank, parse], by simp⟩
  | readDone pc poll text blank parse dispatch | readAuthorize pc poll text blank parse dispatch =>
    refine .inr ⟨?_, by simp⟩
    simp [dispatching, nextRequest, poll, text, blank, parse, dispatch, Dispatch.submitted]
  | arrive | peerClose | recvLagged | recvSkip =>
    exact .inr ⟨rfl, fun id share hpc => by simp [hpc]⟩
  | recvNotify pc => exact .inr ⟨rfl, by simp⟩
  | authorized pc | notSubmitted pc | panicked pc | submitted pc | lookup pc | recorded pc
  | reported pc | reportedBlock pc | relookupNone pc | relookup pc | registered pc
  | blockSubmitted pc | wroteNext pc | wroteResponse pc | wroteNotify pc | writeFailed pc =>
    exact .inr ⟨rfl, fun id share hpc => by rw [pc] at hpc; cases hpc⟩

/-- What a step dispatches it holds, until another one records it. -/
theorem StepTo.dispatching_eq (h : StepTo env parseJson shared x e shared' x') :
    (x.dispatching parseJson shared e).toList ++ x.pc.unrecorded =
      ((x.recording e).toList.map Prod.fst) ++ x'.pc.unrecorded := by
  obtain ⟨id, share, rfl, hpc, hpc', hsome⟩ | ⟨hnone, hstart⟩ := h.dispatching_cases
  · rw [hsome, hpc, hpc', SessionPc.unrecorded_start]
    rfl
  · rw [hnone]
    cases h with
    | readSubmit pc => exact absurd rfl (hstart _ _ pc)
    | arrive | peerClose | recvLagged | recvSkip | readPending | readBlank => rfl
    | readEnd pc | readInvalid pc | readDone pc | readAuthorize pc | recvNotify pc | authorized pc
    | notSubmitted pc | panicked pc | submitted pc | lookup pc | recorded pc | reported pc
    | reportedBlock pc | relookupNone pc | relookup pc | registered pc | blockSubmitted pc
    | wroteNext pc | wroteResponse pc | wroteNotify pc | writeFailed pc =>
      simp [recording, pc, SessionPc.unrecorded, finish]

/-- What a step records it holds, until another one reports it. -/
theorem StepTo.recording_eq (h : StepTo env parseJson shared x e shared' x') :
    (x.recording e).toList ++ x.pc.unreported = (x.reporting e).toList ++ x'.pc.unreported := by
  cases h with
  | arrive | peerClose => rfl
  | readSubmit pc =>
    rw [pc]
    exact (SessionPc.unreported_start _ _).symm
  | readPending pc | readEnd pc | readBlank pc | readInvalid pc | readDone pc | readAuthorize pc
  | recvLagged pc | recvSkip pc | recvNotify pc | authorized pc | notSubmitted pc | panicked pc
  | submitted pc | lookup pc | recorded pc | reported pc | reportedBlock pc | relookupNone pc
  | relookup pc | registered pc | blockSubmitted pc | wroteNext pc | wroteResponse pc
  | wroteNotify pc | writeFailed pc =>
    simp [recording, reporting, pc, SessionPc.unreported, finish]

/-- The buffer gets the verdict that a step records, and nothing else. -/
theorem StepTo.recent_eq (h : StepTo env parseJson shared x e shared' x') :
    shared'.records.recent = (x.recording e).toList.foldl
      (fun recent v => RecentSharesBuffer.record recent v.1 v.2) shared.records.recent := by
  cases h with
  | recorded pc | lookup pc | relookupNone pc | relookup pc | registered pc =>
    simp [recording, pc, ShareRecords.buffer]
  | reported pc | reportedBlock pc =>
    simp [recording, pc, JobAwareShareProcessor.recent_reportShareResult]
  | _ => rfl

/-- The sink gets the verdict that a step reports, and nothing else. -/
theorem StepTo.sinkCalls_eq (h : StepTo env parseJson shared x e shared' x') :
    shared'.records.sinkCalls = shared.records.sinkCalls ++ if env.shareSink then
      (x.reporting e).toList.map fun v => ⟨v.1, v.2, env.initialDifficulty⟩ else [] := by
  cases h with
  | reported pc | reportedBlock pc =>
    simp only [reporting, pc, JobAwareShareProcessor.sinkCalls_reportShareResult]
    rfl
  | recorded pc | lookup pc | relookupNone pc | relookup pc | registered pc =>
    simp [reporting, pc, ShareRecords.buffer]
  | _ => simp [reporting]

/-- An `on_submit` returns in the step in which its session gets to write a response. -/
theorem answering_of_submitting (h : x.step env parseJson shared e = some (shared', x'))
    {id : Option Value} {stage : SubmitStage} (hpc : x.pc = .submitting id stage) :
    x.answering env parseJson shared e = x'.pc.response.map (stage.share, ·) := by
  simp only [answering, hpc, h]

theorem answering_eq_none (h : x.step env parseJson shared e = some (shared', x'))
    (hpc : ∀ id stage, x.pc = .submitting id stage → x'.pc.response = none) :
    x.answering env parseJson shared e = none := by
  cases hx : x.pc with
  | submitting id stage => rw [answering_of_submitting h hx, hpc id stage hx]; rfl
  | _ => simp [answering, hx]

/-- An `on_submit` that has not panicked holds a reported verdict until it returns, and the response
its session then writes tells the miner the verdict. -/
theorem answering_eq (h : x.step env parseJson shared e = some (shared', x'))
    (hpanic : x.PanicFree env) :
    (x.reporting e).toList.map JudgedShare.told ++ x.pc.unanswered.map JudgedShare.told =
      (x.answering env parseJson shared e).toList.map AnsweredShare.told ++
        x'.pc.unanswered.map JudgedShare.told := by
  cases step_cases h with
  | panicked pc hstep => exact absurd hstep (hpanic _ _ _ _ _ pc)
  | arrive | peerClose =>
    rw [answering_eq_none h fun id stage hpc => by simp [hpc, SessionPc.response]]
    rfl
  | readSubmit pc =>
    rw [answering_eq_none h (by simp [pc]), pc, SessionPc.unanswered_start]
    rfl
  | readPending pc | readEnd pc | readBlank pc | readInvalid pc | readDone pc | readAuthorize pc
  | recvLagged pc | recvSkip pc | recvNotify pc | authorized pc | registered pc | wroteNext pc
  | wroteResponse pc | wroteNotify pc | writeFailed pc =>
    rw [answering_eq_none h (by simp [pc])]
    simp [reporting, pc, SessionPc.unanswered]
  | submitted pc | lookup pc | recorded pc | relookup pc | reportedBlock pc =>
    rw [answering_of_submitting h pc]
    simp [reporting, pc, SessionPc.unanswered, SessionPc.response]
  | notSubmitted pc | relookupNone pc | blockSubmitted pc | reported pc =>
    rw [answering_of_submitting h pc, response_finish, unanswered_finish]
    simp [reporting, pc, SessionPc.unanswered, SubmitStage.share, JudgedShare.told,
      AnsweredShare.told, told_finishSubmit]

end Session

/-! ## The ledger balances -/

/-- The records are those of the ledger: the last hundred verdicts that were recorded, and a call of
a configured sink for each that was reported, in the order of the steps. -/
structure Ledger.Records (env : PoolEnv) (h : Ledger) (records : ShareRecords) : Prop where
  recent : records.recent = (h.recorded.map fun v => ShareAttempt.of v.1 v.2).rtake maxRecent
  sinkCalls : records.sinkCalls =
    if env.shareSink then h.reported.map fun v => ⟨v.1, v.2, env.initialDifficulty⟩ else []

/-- A step of a session keeps the records in step with the ledger. -/
theorem Ledger.Records.step {h h' : Ledger} {shared shared' : Shared} {x x' : Session}
    {e : SessionEvent} (hrecords : h.Records env shared.records)
    (hstep : Session.StepTo env parseJson shared x e shared' x')
    (hrecorded : h'.recorded = h.recorded ++ (x.recording e).toList)
    (hreported : h'.reported = h.reported ++ (x.reporting e).toList) :
    h'.Records env shared'.records := by
  refine ⟨?_, ?_⟩
  · rw [hstep.recent_eq, hrecords.recent, hrecorded]
    cases x.recording e with
    | none => simp
    | some v =>
      simp only [Option.toList_some, List.foldl_cons, List.foldl_nil, List.map_append]
      rw [record_eq_push, push_rtake (by decide)]
      rfl
  · rw [hstep.sinkCalls_eq, hrecords.sinkCalls, hreported, List.map_append]
    cases env.shareSink <;> rfl

/-- The ledger balances: what was dispatched is recorded or on its way there, what was recorded is
reported or on its way there, what was reported is told the miner or on its way there, and the
records are those of the ledger. -/
structure Ledger.Balances (env : PoolEnv) (p : Pool) (h : Ledger) : Prop where
  dispatched : Conserved (fun x : Session => x.pc.unrecorded) h.dispatched
    (h.recorded.map Prod.fst) p.sessions
  recorded : Conserved (fun x : Session => x.pc.unreported) h.recorded h.reported p.sessions
  reported : Conserved (fun x : Session => x.pc.unanswered.map JudgedShare.told)
    (h.reported.map JudgedShare.told) (h.answered.map AnsweredShare.told) p.sessions
  records : h.Records env p.shared.records

namespace Ledger.Balances

variable {p p' : Pool} {h : Ledger}

/-- A broadcast changes neither holdings nor records. -/
theorem broadcast (hbal : h.Balances env p) (poller : Poller) (job : Job) :
    h.Balances env { p with poller := poller, sessions := Pool.broadcast p.sessions job } := by
  exact ⟨hbal.dispatched.map fun x => (by split <;> rfl),
    hbal.recorded.map fun x => (by split <;> rfl), hbal.reported.map fun x => (by split <;> rfl),
    hbal.records⟩

/-- A step of a session moves its share on. -/
theorem session (hbal : h.Balances env p) {s : Nat} {x x' : Session} {e : SessionEvent}
    {shared : Shared} (get : p.sessions[s]? = some x)
    (hstep : x.step env parseJson p.shared e = some (shared, x'))
    (hpanic : x.PanicFree env) :
    (h.record env parseJson p (.session s e)).Balances env
      { p with shared := shared, sessions := p.sessions.set s x' } := by
  have hrules := Session.step_cases hstep
  have hledger : h.record env parseJson p (.session s e) = {
      dispatched := h.dispatched ++ (x.dispatching parseJson p.shared e).toList
      recorded := h.recorded ++ (x.recording e).toList
      reported := h.reported ++ (x.reporting e).toList
      answered := h.answered ++ (x.answering env parseJson p.shared e).toList } := by
    simp only [Ledger.record, get]
  rw [hledger]
  refine ⟨?_, ?_, ?_, hbal.records.step hrules rfl rfl⟩
  · rw [List.map_append]
    exact hbal.dispatched.step get (.of_eq hrules.dispatching_eq)
  · exact hbal.recorded.step get (.of_eq hrules.recording_eq)
  · rw [List.map_append, List.map_append]
    exact hbal.reported.step get (.of_eq (Session.answering_eq hstep hpanic))

/-- Every step keeps the balance. -/
theorem step {e : Event} (hbal : h.Balances env p) (hstep : p.step env parseJson e = some p')
    (hpanic : ∀ x ∈ p.sessions, x.PanicFree env) :
    (h.record env parseJson p e).Balances env p' := by
  cases e with
  | poll template =>
    cases hstep
    cases env.currentJob template with
    | none => exact hbal
    | some job =>
      rw [Pool.poll]
      split
      · exact hbal.broadcast _ job
      · exact hbal
  | connect =>
    cases hstep
    exact ⟨hbal.dispatched.append rfl, hbal.recorded.append rfl, hbal.reported.append rfl,
      hbal.records⟩
  | session s e =>
    simp only [Pool.step] at hstep
    split at hstep
    · cases hstep
    · next x get =>
      obtain ⟨⟨shared, x'⟩, hx, rfl⟩ := Option.map_eq_some_iff.mp hstep
      exact hbal.session get hx (hpanic x (List.mem_of_getElem? get))

end Ledger.Balances

/-- Behind every run, whatever the interleaving, the ledger balances. -/
theorem ledger_of_runsTo (hbitcoin : env.bitcoin.FollowsFormat) {es : List Event}
    {s : Pool × Ledger} (h : (ledgerMachine env parseJson).RunsTo (fun _ _ => True) es s) :
    s.2.Balances env s.1 := by
  induction h with
  | nil => exact ⟨.nil, .nil, .nil, ⟨rfl, by simp [ledgerMachine, Machine.track, poolMachine]⟩⟩
  | @snoc es s s' e run ok step ih =>
    obtain ⟨p', hstep, rfl⟩ := Option.map_eq_some_iff.mp step
    exact ih.step hstep fun x hx => ne_panicked_of_runsTo hbitcoin run.of_track hx

/-- The fixture's pool with a share sink. -/
def sinkEnv : PoolEnv := { fixtureEnv with shareSink := true }

/-- A share that is found to be a block: the sink is called, and its miner is told that it is
accepted. -/
theorem ledger_fixture : ∃ s,
    (ledgerMachine sinkEnv fixtureJson).run ([.connect] ++ handshake 0 (fixtureTemplate []) ++
      solve 0 (fixtureTemplate []) ++ [.session 0 (.blockSubmitted (.ok true))]) = some s ∧
    s.2.dispatched.length = 1 ∧ s.1.shared.records.sinkCalls.map SinkCall.result = [.block] ∧
    s.2.answered.map (fun a => a.2.told) = [some .accepted] ∧ s.2.Balances sinkEnv s.1 := by
  have hany : ((ledgerMachine sinkEnv fixtureJson).run ([.connect] ++
      handshake 0 (fixtureTemplate []) ++ solve 0 (fixtureTemplate []) ++
        [.session 0 (.blockSubmitted (.ok true))])).any (fun s =>
          decide (s.2.dispatched.length = 1 ∧
            s.1.shared.records.sinkCalls.map SinkCall.result = [.block] ∧
            s.2.answered.map (fun a => a.2.told) = [some .accepted])) = true := by
    decide +kernel
  obtain ⟨s, hs, hprops⟩ := (Option.any_eq_true _ _).mp hany
  obtain ⟨hdispatched, hcalls, hanswered⟩ := of_decide_eq_true hprops
  exact ⟨s, hs, hdispatched, hcalls, hanswered,
    ledger_of_runsTo BitcoinCrate.ofFormat_followsFormat (Machine.runsTo_of_run hs)⟩

end AzcoinPool
