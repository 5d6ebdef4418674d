import AzcoinPool.Pool.System

/-!
# What a step can do

The steps of a session and of the pool as relations with one rule for each way a step can go
(`Session.StepTo`, `Pool.StepTo`), and the proofs that the executable steps follow them
(`Session.step_cases`, `Pool.step_cases`). The invariants of later modules go through the rules,
those of single sessions by `session_invariant`. What most of them share is stated here once: only a
registration changes the registry (`StepTo.registry_eq`), and the jobs a session holds are mapped
from templates, with `last_notify_job_id` naming the last one its miner was sent
(`jobFacts_of_runsTo`).
-/

namespace AzcoinPool

variable {env : PoolEnv} {parseJson : String → Option Sv1Request}

namespace Session

/-- The rules of a session's step. -/
inductive StepTo (env : PoolEnv) (parseJson : String → Option Sv1Request) (shared : Shared)
    (x : Session) : SessionEvent → Shared → Session → Prop where
  | arrive {bytes : Bytes} (open_ : x.reader.closed = false) :
    StepTo env parseJson shared x (.arrive bytes) shared
      { x with reader := x.reader.arrive bytes, arrived := x.arrived ++ bytes }
  | peerClose :
    StepTo env parseJson shared x .peerClose shared { x with reader := x.reader.peerClose }
  | readPending {reader : LineReader} (pc : x.pc = .select)
      (poll : x.reader.poll = (reader, none)) :
    StepTo env parseJson shared x .pollRead shared { x with reader := reader }
  | readEnd {reader : LineReader} {bytes : Bytes} (pc : x.pc = .select)
      (poll : x.reader.poll = (reader, some bytes)) (bad : fromUtf8 bytes = none ∨ bytes = []) :
    StepTo env parseJson shared x .pollRead shared { x with reader := reader, pc := .ended }
  | readBlank {reader : LineReader} {bytes : Bytes} {line : String} (pc : x.pc = .select)
      (poll : x.reader.poll = (reader, some bytes)) (text : fromUtf8 bytes = some line)
      (blank : trim line = "") :
    StepTo env parseJson shared x .pollRead shared { x with reader := reader }
  | readInvalid {reader : LineReader} {bytes : Bytes} {line : String} (pc : x.pc = .select)
      (poll : x.reader.poll = (reader, some bytes)) (text : fromUtf8 bytes = some line)
      (blank : trim line ≠ "") (parse : parseJson (trim line) = none) :
    StepTo env parseJson shared x .pollRead shared
      { x with
        reader := reader
        parsed := x.parsed ++ [trim line]
        pc := respond env (buildErrorResponse none (-32700) "Parse error") none }
  | readDone {reader : LineReader} {bytes : Bytes} {line : String} {req : Sv1Request}
      {next : UInt32} {state : SessionState} {response : Sv1Response} (pc : x.pc = .select)
      (poll : x.reader.poll = (reader, some bytes)) (text : fromUtf8 bytes = some line)
      (blank : trim line ≠ "") (parse : parseJson (trim line) = some req)
      (dispatch : dispatchRequest shared.nextExtranonce1 x.state req = .done next state response) :
    StepTo env parseJson shared x .pollRead { shared with nextExtranonce1 := next }
      { x with
        reader := reader
        parsed := x.parsed ++ [trim line]
        state := state
        pc := respond env response none }
  | readAuthorize {reader : LineReader} {bytes : Bytes} {line : String} {req : Sv1Request}
      {id : Option Value} {username : String} (pc : x.pc = .select)
      (poll : x.reader.poll = (reader, some bytes)) (text : fromUtf8 bytes = some line)
      (blank : trim line ≠ "") (parse : parseJson (trim line) = some req)
      (dispatch : dispatchRequest shared.nextExtranonce1 x.state req = .onAuthorize id username) :
    StepTo env parseJson shared x .pollRead
      { shared with workers := shared.workers.register (WorkerIdentity.new username) }
      { x with
        reader := reader
        parsed := x.parsed ++ [trim line]
        pc := .authorizing id username }
  | readSubmit {reader : LineReader} {bytes : Bytes} {line : String} {req : Sv1Request}
      {id : Option Value} {share : ShareSubmission} (pc : x.pc = .select)
      (poll : x.reader.poll = (reader, some bytes)) (text : fromUtf8 bytes = some line)
      (blank : trim line ≠ "") (parse : parseJson (trim line) = some req)
      (dispatch : dispatchRequest shared.nextExtranonce1 x.state req = .onSubmit id share) :
    StepTo env parseJson shared x .pollRead shared
      { x with
        reader := reader
        parsed := x.parsed ++ [trim line]
        pc := .submitting id (.start share) }
  | recvLagged {receiver : Receiver} {skipped : Nat} (pc : x.pc = .select)
      (recv : x.receiver.recv = some (.lagged skipped, receiver)) :
    StepTo env parseJson shared x .pollRecv shared
      { x with receiver := receiver, reader := x.reader.cancel }
  | recvSkip {receiver : Receiver} {job : Job} (pc : x.pc = .select)
      (recv : x.receiver.recv = some (.job job, receiver))
      (skip : x.state.authorizedWorker = none ∨ x.state.lastNotifyJobId = some job.jobId) :
    StepTo env parseJson shared x .pollRecv shared
      { x with receiver := receiver, reader := x.reader.cancel }
  | recvNotify {receiver : Receiver} {job : Job} (pc : x.pc = .select)
      (recv : x.receiver.recv = some (.job job, receiver))
      (authorized : x.state.authorizedWorker ≠ none)
      (fresh : x.state.lastNotifyJobId ≠ some job.jobId) :
    StepTo env parseJson shared x .pollRecv shared
      { x with
        receiver := receiver
        reader := x.reader.cancel
        pc := .writing (notifyLines env job).1 [(notifyLines env job).2] (some job) }
  | authorized {template : Except PoolError (Option BlockTemplate)} {id : Option Value}
      {username : String} (pc : x.pc = .authorizing id username) :
    StepTo env parseJson shared x (.currentJob template) shared
      { x with
        state := { x.state with authorizedWorker := some (WorkerIdentity.new username) }
        pc := respond env (buildAuthorizeSuccess id) (env.currentJob template) }
  | notSubmitted {template : Except PoolError (Option BlockTemplate)} {id : Option Value}
      {share : ShareSubmission} {job : Job} {validated : Option Job}
      (pc : x.pc = .submitting id (.fetching share job validated))
      (step : ∀ candidate, maybeSubmitStep env job (env.currentJob template) share ≠
        some (.submitBlock candidate)) :
    StepTo env parseJson shared x (.currentJob template) shared (x.finish env id .block)
  | panicked {template : Except PoolError (Option BlockTemplate)} {id : Option Value}
      {share : ShareSubmission} {job : Job} {validated : Option Job}
      (pc : x.pc = .submitting id (.fetching share job validated))
      (step : maybeSubmitStep env job (env.currentJob template) share = some .panicked) :
    StepTo env parseJson shared x (.currentJob template) shared { x with pc := .ended }
  | submitted {template : Except PoolError (Option BlockTemplate)} {id : Option Value}
      {share : ShareSubmission} {job : Job} {validated : Option Job} {candidate : BlockCandidate}
      (pc : x.pc = .submitting id (.fetching share job validated))
      (step : maybeSubmitStep env job (env.currentJob template) share =
        some (.submitBlock candidate)) :
    StepTo env parseJson shared x (.currentJob template)
      { shared with submitted := shared.submitted ++ [⟨share, candidate, validated⟩] }
      { x with pc := .submitting id (.submitting share candidate validated) }
  | lookup {id : Option Value} {share : ShareSubmission}
      (pc : x.pc = .submitting id (.lookup share)) :
    StepTo env parseJson shared x .proceed shared
      { x with
        pc := .submitting id (.recording share
          (env.shareProcessor.judge (shared.registry.getJob share.jobId) share)
          (shared.registry.getJob share.jobId)) }
  | recorded {id : Option Value} {share : ShareSubmission} {result : ShareResult}
      {validated : Option Job} (pc : x.pc = .submitting id (.recording share result validated)) :
    StepTo env parseJson shared x .proceed
      { shared with records := shared.records.buffer share result }
      { x with pc := .submitting id (.reporting share result validated) }
  | reported {id : Option Value} {share : ShareSubmission} {result : ShareResult}
      {validated : Option Job} (pc : x.pc = .submitting id (.reporting share result validated))
      (noBlock : result ≠ .block) :
    StepTo env parseJson shared x .proceed
      { shared with records := env.shareProcessor.reportShareResult shared.records share result }
      (x.finish env id result)
  | reportedBlock {id : Option Value} {share : ShareSubmission} {validated : Option Job}
      (pc : x.pc = .submitting id (.reporting share .block validated)) :
    StepTo env parseJson shared x .proceed
      { shared with records := env.shareProcessor.reportShareResult shared.records share .block }
      { x with pc := .submitting id (.relookup share validated) }
  | relookupNone {id : Option Value} {share : ShareSubmission} {validated : Option Job}
      (pc : x.pc = .submitting id (.relookup share validated))
      (get : shared.registry.getJob share.jobId = none) :
    StepTo env parseJson shared x .proceed shared (x.finish env id .block)
  | relookup {id : Option Value} {share : ShareSubmission} {validated : Option Job} {job : Job}
      (pc : x.pc = .submitting id (.relookup share validated))
      (get : shared.registry.getJob share.jobId = some job) :
    StepTo env parseJson shared x .proceed shared
      { x with pc := .submitting id (.fetching share job validated) }
  | registered {job : Job} (pc : x.pc = .registering job) :
    StepTo env parseJson shared x .proceed
      { shared with registry := shared.registry.register job } { x with pc := .select }
  | blockSubmitted {result : Except String Bool} {id : Option Value} {share : ShareSubmission}
      {candidate : BlockCandidate} {validated : Option Job}
      (pc : x.pc = .submitting id (.submitting share candidate validated)) :
    StepTo env parseJson shared x (.blockSubmitted result) shared (x.finish env id .block)
  | wroteNext {line next : SentLine} {rest : List SentLine} {notify : Option Job}
      (pc : x.pc = .writing line (next :: rest) notify) :
    StepTo env parseJson shared x (.written true) shared
      { x with written := x.written ++ [line], pc := .writing next rest notify }
  | wroteResponse {line : SentLine} (pc : x.pc = .writing line [] none) :
    StepTo env parseJson shared x (.written true) shared
      { x with written := x.written ++ [line], pc := .select }
  | wroteNotify {line : SentLine} {job : Job} (pc : x.pc = .writing line [] (some job)) :
    StepTo env parseJson shared x (.written true) shared
      { x with
        written := x.written ++ [line]
        state := { x.state with lastNotifyJobId := some job.jobId }
        notified := x.notified ++ [job]
        pc := .registering job }
  | writeFailed {line : SentLine} {rest : List SentLine} {notify : Option Job}
      (pc : x.pc = .writing line rest notify) :
    StepTo env parseJson shared x (.written false) shared { x with pc := .ended }

/-- The read branch follows the rules. -/
theorem pollRead_cases {shared shared' : Shared} {x x' : Session} (hpc : x.pc = .select)
    (h : x.pollRead env parseJson shared = (shared', x')) :
    StepTo env parseJson shared x .pollRead shared' x' := by
  rw [pollRead] at h
  split at h
  · next reader hpoll => cases h; exact .readPending hpc hpoll
  · next reader bytes hpoll =>
    dsimp only at h
    split at h
    · next hutf8 => cases h; exact .readEnd hpc hpoll (.inl hutf8)
    · next line htext =>
      split at h
      · next hnil => cases h; exact .readEnd hpc hpoll (.inr hnil)
      · rw [handleLine] at h
        dsimp only at h
        split at h
        · next hblank => cases h; exact .readBlank hpc hpoll htext hblank
        · next hblank =>
          split at h
          · next hparse => cases h; exact .readInvalid hpc hpoll htext hblank hparse
          · next req hparse =>
            rw [startRequest] at h
            split at h
            · next hd => cases h; exact .readDone hpc hpoll htext hblank hparse hd
            · next hd => cases h; exact .readAuthorize hpc hpoll htext hblank hparse hd
            · next hd => cases h; exact .readSubmit hpc hpoll htext hblank hparse hd

/-- The broadcast branch follows the rules. -/
theorem pollRecv_cases {shared : Shared} {x x' : Session} (hpc : x.pc = .select)
    (h : x.pollRecv env = some x') : StepTo env parseJson shared x .pollRecv shared x' := by
  rw [pollRecv] at h
  split at h
  · cases h
  · next hrecv => cases h; exact .recvLagged hpc hrecv
  · next job receiver hrecv =>
    rw [onBroadcast] at h
    split at h
    · next hworker =>
      cases h
      exact .recvSkip hpc hrecv (.inl (Option.isNone_iff_eq_none.mp hworker))
    · next hworker =>
      split at h
      · next hlast => cases h; exact .recvSkip hpc hrecv (.inr hlast)
      · next hlast =>
        cases h
        exact .recvNotify hpc hrecv (fun hnone => hworker (by simp [hnone])) hlast

/-- The steps of `on_submit` follow the rules. -/
theorem proceedSubmit_cases {shared shared' : Shared} {x x' : Session} {id : Option Value}
    {stage : SubmitStage} (hpc : x.pc = .submitting id stage)
    (h : x.proceedSubmit env shared id stage = some (shared', x')) :
    StepTo env parseJson shared x .proceed shared' x' := by
  cases stage with
  | lookup share => cases h; exact .lookup hpc
  | recording share result validated => cases h; exact .recorded hpc
  | reporting share result validated =>
    simp only [proceedSubmit] at h
    split at h
    · next hblock => subst hblock; cases h; exact .reportedBlock hpc
    · next hblock => cases h; exact .reported hpc hblock
  | relookup share validated =>
    simp only [proceedSubmit] at h
    split at h
    · next hget => cases h; exact .relookupNone hpc hget
    · next hget => cases h; exact .relookup hpc hget
  | fetching share job validated => cases h
  | submitting share candidate validated => cases h

/-- The answer of `current_job` in `maybe_submit_block_candidate` follows the rules. -/
theorem submitCurrent_cases {shared shared' : Shared} {x x' : Session} {id : Option Value}
    {share : ShareSubmission} {job : Job} {validated : Option Job}
    {template : Except PoolError (Option BlockTemplate)}
    (hpc : x.pc = .submitting id (.fetching share job validated))
    (h : x.submitCurrent env shared id share job validated (env.currentJob template) =
      (shared', x')) :
    StepTo env parseJson shared x (.currentJob template) shared' x' := by
  rw [submitCurrent] at h
  split at h
  · next hstep => cases h; exact .notSubmitted hpc (by simp [hstep])
  · next hstep => cases h; exact .notSubmitted hpc (by simp [hstep])
  · next hstep => cases h; exact .panicked hpc hstep
  · next hstep => cases h; exact .submitted hpc hstep

/-- Every step follows the rules. -/
theorem step_cases {shared shared' : Shared} {x x' : Session} {e : SessionEvent}
    (h : x.step env parseJson shared e = some (shared', x')) :
    StepTo env parseJson shared x e shared' x' := by
  cases e with
  | arrive bytes =>
    simp only [step] at h
    split at h
    · cases h
    · next hopen => cases h; exact .arrive (by simpa using hopen)
  | peerClose => cases h; exact .peerClose
  | pollRead =>
    simp only [step] at h
    split at h
    · next hpc => exact pollRead_cases hpc (Option.some.inj h)
    · cases h
  | pollRecv =>
    simp only [step] at h
    split at h
    · next hpc =>
      obtain ⟨x₁, hx₁, heq⟩ := Option.map_eq_some_iff.mp h
      cases heq
      exact pollRecv_cases hpc hx₁
    · cases h
  | currentJob template =>
    simp only [step] at h
    split at h
    · next hpc => cases h; exact .authorized hpc
    · next hpc => exact submitCurrent_cases hpc (Option.some.inj h)
    · cases h
  | proceed =>
    simp only [step] at h
    split at h
    · next hpc => exact proceedSubmit_cases hpc h
    · next hpc => cases h; exact .registered hpc
    · cases h
  | blockSubmitted result =>
    simp only [step] at h
    split at h
    · next hpc => cases h; exact .blockSubmitted hpc
    · cases h
  | written ok =>
    simp only [step] at h
    split at h
    · next line rest notify hpc =>
      cases ok with
      | false => cases h; exact .writeFailed hpc
      | true =>
        rw [if_pos rfl] at h
        cases rest with
        | cons next rest => cases h; exact .wroteNext hpc
        | nil =>
          cases notify with
          | none => cases h; exact .wroteResponse hpc
          | some job => cases h; exact .wroteNotify hpc
    · cases h

/-- Only a registering session changes the registry. -/
theorem StepTo.registry_eq {shared shared' : Shared} {x x' : Session} {e : SessionEvent}
    (h : StepTo env parseJson shared x e shared' x') :
    (∃ job, e = .proceed ∧ x.pc = .registering job ∧ x' = { x with pc := .select } ∧
      shared'.registry = shared.registry.register job) ∨
    shared'.registry = shared.registry := by
  cases h with
  | registered pc => exact .inl ⟨_, rfl, pc, rfl, rfl⟩
  | _ => exact .inr rfl

/-- A registering session goes on by registering. -/
theorem StepTo.of_registering {shared shared' : Shared} {x x' : Session} {job : Job}
    (hpc : x.pc = .registering job) (h : StepTo env parseJson shared x .proceed shared' x') :
    shared'.registry = shared.registry.register job := by
  cases h with
  | registered pc =>
    rw [hpc] at pc
    cases pc
    rfl
  | lookup pc | recorded pc | reported pc _ | reportedBlock pc | relookupNone pc _
  | relookup pc _ =>
    rw [hpc] at pc
    cases pc

end Session

/-! ## The pool -/

/-- The rules of a step of the pool. -/
inductive Pool.StepTo (env : PoolEnv) (parseJson : String → Option Sv1Request) (p : Pool) :
    Event → Pool → Prop where
  | pollNothing {template : Except PoolError (Option BlockTemplate)}
      (current : env.currentJob template = none) : StepTo env parseJson p (.poll template) p
  | pollSame {template : Except PoolError (Option BlockTemplate)} {job : Job}
      (current : env.currentJob template = some job) (same : p.poller.isNew job = false) :
    StepTo env parseJson p (.poll template) p
  | pollNew {template : Except PoolError (Option BlockTemplate)} {job : Job}
      (current : env.currentJob template = some job) (new : p.poller.isNew job = true) :
    StepTo env parseJson p (.poll template)
      { p with poller := p.poller.send job, sessions := broadcast p.sessions job }
  | connect : StepTo env parseJson p .connect { p with sessions := p.sessions ++ [{}] }
  | session {s : Nat} {e : SessionEvent} {x x' : Session} {shared : Shared}
      (get : p.sessions[s]? = some x)
      (step : Session.StepTo env parseJson p.shared x e shared x') :
    StepTo env parseJson p (.session s e)
      { p with shared := shared, sessions := p.sessions.set s x' }

/-- Every step of the pool follows the rules. -/
theorem Pool.step_cases {p p' : Pool} {e : Event} (h : p.step env parseJson e = some p') :
    StepTo env parseJson p e p' := by
  cases e with
  | poll template =>
    cases h
    cases hcurrent : env.currentJob template with
    | none => exact .pollNothing hcurrent
    | some job =>
      rw [poll]
      split
      · next hnew => exact .pollNew hcurrent hnew
      · next hsame => exact .pollSame hcurrent (by simpa using hsame)
  | connect => cases h; exact .connect
  | session s e =>
    simp only [step] at h
    split at h
    · cases h
    · next x hget =>
      obtain ⟨⟨shared, x'⟩, hstep, heq⟩ := Option.map_eq_some_iff.mp h
      cases heq
      exact .session hget (Session.step_cases hstep)

/-- What a broadcast does to a session. -/
theorem Pool.broadcast_eq_some {sessions : List Session} {job : Job} {s : Nat} {x' : Session}
    (h : (broadcast sessions job)[s]? = some x') :
    ∃ x, sessions[s]? = some x ∧ (x' = x ∨ x' = { x with receiver := x.receiver.push job }) := by
  rw [broadcast, List.getElem?_map] at h
  obtain ⟨x, hget, heq⟩ := Option.map_eq_some_iff.mp h
  refine ⟨x, hget, ?_⟩
  split at heq
  · exact .inl heq.symm
  · exact .inr heq.symm

/-- A session behind a connection is an old one or new. -/
theorem Pool.connect_eq_some {sessions : List Session} {s : Nat} {x : Session}
    (h : (sessions ++ [({} : Session)])[s]? = some x) : sessions[s]? = some x ∨ x = {} := by
  rw [List.getElem?_append] at h
  split at h
  · exact .inl h
  · rw [List.getElem?_singleton] at h
    split at h
    · cases h; exact .inr rfl
    · cases h

/-- A session behind a step of one is the one that stepped, or as it was. -/
theorem Pool.set_eq_some {sessions : List Session} {s t : Nat} {x x' : Session}
    (h : (sessions.set s x')[t]? = some x) :
    (t = s ∧ x = x') ∨ (t ≠ s ∧ sessions[t]? = some x) := by
  rw [List.getElem?_set] at h
  split at h
  · next hst =>
    split at h
    · cases h; exact .inl ⟨hst.symm, rfl⟩
    · cases h
  · next hst => exact .inr ⟨fun hts => hst hts.symm, h⟩

/-- A session takes a step of its own, or stays as it is but for a job that is broadcast to it. -/
theorem Pool.StepTo.exists_session {p p' : Pool} {e : Event} (h : StepTo env parseJson p e p')
    {i : Nat} {x : Session} (get : p.sessions[i]? = some x) :
    ∃ x', p'.sessions[i]? = some x' ∧
      ((∃ e', e = .session i e' ∧ Session.StepTo env parseJson p.shared x e' p'.shared x') ∨
        (∀ e', e ≠ .session i e') ∧
          (x' = x ∨ ∃ job, x' = { x with receiver := x.receiver.push job })) := by
  cases h with
  | pollNothing | pollSame => exact ⟨x, get, .inr ⟨by simp, .inl rfl⟩⟩
  | @pollNew template job current new =>
    refine ⟨_, by rw [broadcast, List.getElem?_map, get]; rfl, .inr ⟨by simp, ?_⟩⟩
    dsimp only
    split
    · exact .inl rfl
    · exact .inr ⟨job, rfl⟩
  | connect =>
    refine ⟨x, ?_, .inr ⟨by simp, .inl rfl⟩⟩
    rw [List.getElem?_append_left (List.getElem?_eq_some_iff.mp get).1]
    exact get
  | @session j e y y' shared gety hstep =>
    by_cases hij : i = j
    · subst hij
      obtain rfl : y = x := Option.some.inj (gety.symm.trans get)
      exact ⟨y', List.getElem?_set_self (List.getElem?_eq_some_iff.mp get).1, .inl ⟨e, rfl, hstep⟩⟩
    · refine ⟨x, ?_, .inr ⟨?_, .inl rfl⟩⟩
      · rw [List.getElem?_set_ne (Ne.symm hij)]
        exact get
      · rintro e' ⟨⟩
        exact hij rfl

/-- A session behind a step has taken it, or is as it was but for a job that is broadcast to it, or
is new. -/
theorem Pool.StepTo.session_cases {p p' : Pool} {e : Event} (h : StepTo env parseJson p e p')
    {i : Nat} {x' : Session} (get' : p'.sessions[i]? = some x') :
    (∃ x e', p.sessions[i]? = some x ∧ e = .session i e' ∧
      Session.StepTo env parseJson p.shared x e' p'.shared x') ∨
    (∀ e', e ≠ .session i e') ∧
      (x' = {} ∨ ∃ x, p.sessions[i]? = some x ∧ (x' = x ∨ ∃ job, x' =
        { x with receiver := x.receiver.push job })) := by
  cases h with
  | pollNothing | pollSame => exact .inr ⟨by simp, .inr ⟨x', get', .inl rfl⟩⟩
  | @pollNew template job current new =>
    obtain ⟨x, get, heq⟩ := Pool.broadcast_eq_some get'
    exact .inr ⟨by simp, .inr ⟨x, get, heq.imp_right fun heq => ⟨job, heq⟩⟩⟩
  | connect =>
    refine .inr ⟨by simp, ?_⟩
    obtain get | rfl := Pool.connect_eq_some get'
    · exact .inr ⟨x', get, .inl rfl⟩
    · exact .inl rfl
  | @session j e y y' shared gety hstep =>
    obtain ⟨rfl, rfl⟩ | ⟨hij, get⟩ := Pool.set_eq_some get'
    · exact .inl ⟨y, e, gety, rfl, hstep⟩
    · refine .inr ⟨?_, .inr ⟨x', get, .inl rfl⟩⟩
      rintro e' ⟨⟩
      exact hij rfl

/-- What a session and what is shared have when the session is new, keep in its steps and in those
of the other sessions, and keep when a job is broadcast, they have behind every run. -/
theorem shared_invariant {Ok : Pool → Event → Prop} {s : Nat} {I : Shared → Session → Prop}
    (hnew : ∀ shared, I shared {})
    (hstep : ∀ {es : List Event} {p : Pool} {x x' : Session} {e : SessionEvent} {shared : Shared},
      (poolMachine env parseJson).RunsTo Ok es p → p.sessions[s]? = some x →
        Ok p (.session s e) → I p.shared x → Session.StepTo env parseJson p.shared x e shared x' →
          I shared x')
    (hother : ∀ {x y y' : Session} {e : SessionEvent} {shared shared' : Shared}, I shared x →
      Session.StepTo env parseJson shared y e shared' y' → I shared' x)
    (hpush : ∀ {shared : Shared} {x : Session} {template : Except PoolError (Option BlockTemplate)}
      {job : Job}, I shared x → env.currentJob template = some job →
        I shared { x with receiver := x.receiver.push job })
    {es : List Event} {p : Pool} (h : (poolMachine env parseJson).RunsTo Ok es p) {x : Session}
    (hx : p.sessions[s]? = some x) : I p.shared x := by
  induction h generalizing x with
  | nil => cases hx
  | @snoc es p p' e run ok step ih =>
    cases Pool.step_cases step with
    | pollNothing current => exact ih hx
    | pollSame current same => exact ih hx
    | pollNew current new =>
      obtain ⟨y, hget, rfl | rfl⟩ := Pool.broadcast_eq_some hx
      · exact ih hget
      · exact hpush (ih hget) current
    | connect =>
      obtain hget | rfl := Pool.connect_eq_some hx
      · exact ih hget
      · exact hnew p.shared
    | session get hsession =>
      obtain ⟨rfl, rfl⟩ | ⟨-, hget⟩ := Pool.set_eq_some hx
      · exact hstep run get ok (ih get) hsession
      · exact hother (ih hget) hsession

/-- What a session has when it is new, keeps in its steps and keeps when a job is broadcast, it has
behind every run. -/
theorem session_invariant {Ok : Pool → Event → Prop} {s : Nat} {I : Session → Prop} (hnew : I {})
    (hstep : ∀ {es : List Event} {p : Pool} {x x' : Session} {e : SessionEvent} {shared : Shared},
      (poolMachine env parseJson).RunsTo Ok es p → p.sessions[s]? = some x →
        Ok p (.session s e) → I x → Session.StepTo env parseJson p.shared x e shared x' → I x')
    (hpush : ∀ {x : Session} {template : Except PoolError (Option BlockTemplate)} {job : Job},
      I x → env.currentJob template = some job → I { x with receiver := x.receiver.push job })
    {es : List Event} {p : Pool} (h : (poolMachine env parseJson).RunsTo Ok es p) {x : Session}
    (hx : p.sessions[s]? = some x) : I x := by
  refine shared_invariant (s := s) (I := fun _ => I) (fun _ => hnew) ?_ (fun hI _ => hI) ?_ h hx
  · exact fun run get ok hI step => hstep run get ok hI step
  · exact fun hI current => hpush hI current

/-! ## The jobs of a session -/

/-- The job a session is notifying its miner of, or registering. -/
def SessionPc.notifying : SessionPc → Option Job
  | .writing _ _ notify => notify
  | .registering job => some job
  | _ => none

/-- The job a session is writing the notification of. -/
def SessionPc.writingJob : SessionPc → Option Job
  | .writing _ _ notify => notify
  | _ => none

/-- The session is over. -/
def SessionPc.isEnded : SessionPc → Bool
  | .ended => true
  | _ => false

/-- The job a session is registering. -/
def SessionPc.registeringJob : SessionPc → Option Job
  | .registering job => some job
  | _ => none

theorem SessionPc.registeringJob_eq_some {pc : SessionPc} {job : Job} :
    pc.registeringJob = some job ↔ pc = .registering job := by
  cases pc <;> simp [registeringJob]

theorem SessionPc.notifying_eq_some {pc : SessionPc} {job : Job} :
    pc.notifying = some job ↔
      (∃ line rest, pc = .writing line rest (some job)) ∨ pc = .registering job := by
  cases pc <;> simp [notifying]

@[simp] theorem notifying_respond (env : PoolEnv) (response : Sv1Response) (notify : Option Job) :
    (respond env response notify).notifying = notify := by
  cases notify <;> rfl

@[simp] theorem writingJob_respond (env : PoolEnv) (response : Sv1Response) (notify : Option Job) :
    (respond env response notify).writingJob = notify := by
  cases notify <;> rfl

@[simp] theorem respond_ne_registering (env : PoolEnv) (response : Sv1Response)
    (notify : Option Job) (job : Job) : respond env response notify ≠ .registering job := by
  cases notify <;> simp [respond]

@[simp] theorem respond_ne_submitting (env : PoolEnv) (response : Sv1Response)
    (notify : Option Job) (id : Option Value) (stage : SubmitStage) :
    respond env response notify ≠ .submitting id stage := by
  cases notify <;> simp [respond]

theorem Receiver.mem_queue_of_mem_push {r : Receiver} {job j : Job} (h : j ∈ (r.push job).queue) :
    j ∈ r.queue ∨ j = job := by
  have hmem : j ∈ r.queue ++ [job] := by
    rw [Receiver.push] at h
    split at h
    · exact List.mem_of_mem_tail h
    · exact h
  simpa using hmem

theorem Receiver.mem_push (r : Receiver) (job : Job) : job ∈ (r.push job).queue := by
  unfold push
  split
  · next hfull =>
    have hne : r.queue ≠ [] := by
      rintro hnil
      rw [hnil] at hfull
      cases hfull
    rw [List.tail_append_of_ne_nil hne]
    exact List.mem_append_right _ (List.mem_singleton_self job)
  · exact List.mem_append_right _ (List.mem_singleton_self job)

/-- A session that is not over is broadcast to. -/
theorem Pool.broadcast_eq_some_of_open {sessions : List Session} {job : Job} {s : Nat}
    {x' : Session} (h : (broadcast sessions job)[s]? = some x') (hopen : x'.pc.isEnded = false) :
    ∃ x, sessions[s]? = some x ∧ x' = { x with receiver := x.receiver.push job } := by
  rw [broadcast, List.getElem?_map] at h
  obtain ⟨x, hget, heq⟩ := Option.map_eq_some_iff.mp h
  refine ⟨x, hget, ?_⟩
  split at heq
  · next hpc => rw [← heq, hpc] at hopen; cases hopen
  · exact heq.symm

/-- `recv` hands out a job of the queue and leaves jobs of the queue. -/
theorem Receiver.recv_eq_some {r r' : Receiver} {out : Recv} (h : r.recv = some (out, r')) :
    (∀ job, out = .job job → job ∈ r.queue) ∧ ∀ job ∈ r'.queue, job ∈ r.queue := by
  rw [Receiver.recv] at h
  split at h
  · cases h
    exact ⟨fun job hjob => (by cases hjob), fun job hjob => hjob⟩
  · split at h
    · cases h
    · next first queue hqueue =>
      cases h
      rw [hqueue]
      refine ⟨?_, fun job hjob => List.mem_cons_of_mem _ hjob⟩
      rintro job ⟨⟩
      exact List.mem_cons_self

/-- What `recv` leaves of the queue. -/
theorem Receiver.queue_of_recv {r r' : Receiver} {out : Recv} (h : r.recv = some (out, r')) :
    (∃ job, out = .job job ∧ r.queue = job :: r'.queue) ∨
      (∃ skipped, out = .lagged skipped) ∧ r'.queue = r.queue := by
  unfold recv at h
  split at h
  · cases h; exact .inr ⟨⟨_, rfl⟩, rfl⟩
  · split at h
    · cases h
    · next job queue hqueue => cases h; exact .inl ⟨job, rfl, hqueue⟩

theorem Receiver.queue_of_recv_job {r r' : Receiver} {job : Job}
    (h : r.recv = some (.job job, r')) : r.queue = job :: r'.queue := by
  rcases queue_of_recv h with ⟨_, heq, hqueue⟩ | ⟨⟨_, heq⟩, -⟩
  · cases heq
    exact hqueue
  · cases heq

/-- A job is handed out from the head of the queue when none was missed. -/
theorem Receiver.head_of_recv {r r' : Receiver} {job : Job} (h : r.recv = some (.job job, r')) :
    r.missed = 0 ∧ r.queue.head? = some job := by
  unfold recv at h
  split at h
  · cases h
  · next hmissed =>
    split at h
    · cases h
    · next first queue hqueue =>
      cases h
      exact ⟨by simpa using hmissed, by rw [hqueue]; rfl⟩

/-- What a session knows of its jobs. -/
structure Session.JobFacts (env : PoolEnv) (x : Session) : Prop where
  queue : ∀ job ∈ x.receiver.queue, env.IsMapped job
  notifying : ∀ job ∈ x.pc.notifying, env.IsMapped job
  notified : ∀ job ∈ x.notified, env.IsMapped job
  lastNotify : x.state.lastNotifyJobId = x.notified.getLast?.map (·.jobId)
  registering : ∀ job, x.pc = .registering job → x.notified.getLast? = some job

theorem Session.JobFacts.step {shared shared' : Shared} {x x' : Session} {e : SessionEvent}
    (h : x.JobFacts env) (hstep : StepTo env parseJson shared x e shared' x') :
    x'.JobFacts env := by
  cases hstep with
  | arrive | peerClose | readPending | readBlank =>
    exact ⟨h.queue, h.notifying, h.notified, h.lastNotify, h.registering⟩
  | recvLagged _ recv | recvSkip _ recv _ =>
    have hqueue := (Receiver.recv_eq_some recv).2
    exact ⟨fun job hjob => h.queue job (hqueue job hjob), h.notifying, h.notified, h.lastNotify,
      h.registering⟩
  | recvNotify _ recv _ _ =>
    obtain ⟨hjob, hqueue⟩ := Receiver.recv_eq_some recv
    refine ⟨fun job hjob => h.queue job (hqueue job hjob), ?_, h.notified, h.lastNotify, by simp⟩
    rintro _ ⟨⟩
    exact h.queue _ (hjob _ rfl)
  | readDone _ _ _ _ _ dispatch =>
    refine ⟨h.queue, by simp, h.notified, ?_, by simp⟩
    rw [lastNotifyJobId_of_dispatch_done dispatch, h.lastNotify]
  | authorized _ =>
    refine ⟨h.queue, fun job hjob => ?_, h.notified, h.lastNotify, by simp⟩
    rw [notifying_respond] at hjob
    exact PoolEnv.isMapped_of_currentJob hjob
  | wroteNext pc =>
    refine ⟨h.queue, ?_, h.notified, h.lastNotify, by simp⟩
    have hnotifying := h.notifying
    rwa [pc] at hnotifying
  | wroteNotify pc =>
    have hmapped : env.IsMapped _ := h.notifying _ (by rw [pc]; rfl)
    refine ⟨h.queue, by rintro _ ⟨⟩; exact hmapped, ?_, by simp, by rintro _ ⟨⟩; simp⟩
    intro job hjob
    obtain hjob | rfl : job ∈ x.notified ∨ job = _ := by simpa using hjob
    · exact h.notified job hjob
    · exact hmapped
  | _ => exact ⟨h.queue, by simp [SessionPc.notifying_eq_some, finish], h.notified,
      h.lastNotify, by simp [finish]⟩

/-- Behind every run, a session's jobs are mapped, and `last_notify_job_id` is the id of the last
one its miner was sent. -/
theorem jobFacts_of_runsTo {Ok : Pool → Event → Prop} {es : List Event} {p : Pool}
    (h : (poolMachine env parseJson).RunsTo Ok es p) {s : Nat} {x : Session}
    (hx : p.sessions[s]? = some x) : x.JobFacts env := by
  refine session_invariant ⟨by simp, by simp [SessionPc.notifying_eq_some], by simp, rfl, by simp⟩
    (fun _ _ _ hfacts hstep => hfacts.step hstep) ?_ h hx
  intro x template job hfacts hcurrent
  refine ⟨fun j hj => ?_, hfacts.notifying, hfacts.notified, hfacts.lastNotify,
    hfacts.registering⟩
  obtain hj | rfl := Receiver.mem_queue_of_mem_push hj
  · exact hfacts.queue j hj
  · exact PoolEnv.isMapped_of_currentJob hcurrent

end AzcoinPool
