import AzcoinPool.Pool.BlockSubmission
import AzcoinPool.Pool.Credit
import AzcoinPool.Pool.OnSubmit
import AzcoinPool.Pool.RegistryCell

/-!
# What becomes of a found block

Every share that is recorded as a block is decided on once: the submitter is called with a block for
it, or its miner is answered without (`BlockFate`). The calls of the submitter are those decisions
and no others, so no block is submitted twice and none without a share that was found
(`settles_of_runsTo`). A found block is not submitted for one of three reasons: since the share was
validated another session has registered a job of another height (`RegisteredSince`), the daemon's
template has another height than the job, or the job cannot be put together, since a transaction of
its template does not decode or the miner's session has read no `mining.subscribe`.
-/

open Bitcoin

namespace AzcoinPool

variable {env : PoolEnv} {parseJson : String → Option Sv1Request}

/-! ## The decision -/

/-- What becomes of a share that was found to be a block. -/
inductive BlockFate where
  /-- The submitter is called. -/
  | submitted (candidate : BlockCandidate)
  /-- The job is gone from the registry, after the registrations since the session looked it up. -/
  | displaced (session : Nat) (since : List (Nat × Job))
  /-- The daemon's job is not the share's. -/
  | stale (current : Job)
  /-- No block is put together on the job, for a session that has read the requests. -/
  | unassembled (job : Job) (requests : List Sv1Request)

def BlockFate.candidate? : BlockFate → Option BlockCandidate
  | .submitted candidate => some candidate
  | _ => none

/-- What `maybe_submit_block_candidate` makes of the answer of `current_job`. -/
def BlockFate.of (env : PoolEnv) (job : Job) (current : Option Job) (share : ShareSubmission)
    (requests : List Sv1Request) : BlockFate :=
  match maybeSubmitStep env job current share with
  | some (.submitBlock candidate) => .submitted candidate
  | _ =>
    match current with
    | some c => if isStale job (some c) then .stale c else .unassembled job requests
    | none => .unassembled job requests

theorem BlockFate.of_submitBlock {job : Job} {current : Option Job} {share : ShareSubmission}
    {candidate : BlockCandidate}
    (h : maybeSubmitStep env job current share = some (.submitBlock candidate))
    (requests : List Sv1Request) :
    BlockFate.of env job current share requests = .submitted candidate := by
  unfold BlockFate.of
  rw [h]

/-- Without a call of the submitter the share is stale, or no block is put together. -/
theorem BlockFate.of_cases {job : Job} {current : Option Job} {share : ShareSubmission}
    (h : ∀ candidate, maybeSubmitStep env job current share ≠ some (.submitBlock candidate))
    (requests : List Sv1Request) :
    (∃ c, current = some c ∧ isStale job current = true ∧
      BlockFate.of env job current share requests = .stale c) ∨
    isStale job current = false ∧
      BlockFate.of env job current share requests = .unassembled job requests := by
  unfold BlockFate.of
  split
  · next candidate hsubmit => exact absurd hsubmit (h candidate)
  · cases current with
    | none => exact .inr ⟨rfl, rfl⟩
    | some c =>
      cases hstale : isStale job (some c) with
      | true => exact .inl ⟨c, rfl, rfl, by simp [hstale]⟩
      | false => exact .inr ⟨rfl, by simp [hstale]⟩

theorem BlockFate.candidate?_of {job : Job} {current : Option Job} {share : ShareSubmission}
    (h : ∀ candidate, maybeSubmitStep env job current share ≠ some (.submitBlock candidate))
    (requests : List Sv1Request) :
    (BlockFate.of env job current share requests).candidate? = none := by
  obtain ⟨c, -, -, hof⟩ | ⟨-, hof⟩ := of_cases h requests <;> rw [hof] <;> rfl

/-- The share whose fate a step of session `i` decides, and the fate, behind the registrations since
its lookup. -/
def Session.deciding (env : PoolEnv) (parseJson : String → Option Sv1Request) (shared : Shared)
    (i : Nat) (since : List (Nat × Job)) (x : Session) (e : SessionEvent) :
    Option (ShareSubmission × BlockFate) :=
  match x.pc, e with
  | .submitting _ (.relookup share _), .proceed =>
    match shared.registry.getJob share.jobId with
    | none => some (share, .displaced i since)
    | some _ => none
  | .submitting _ (.fetching share job _), .currentJob template =>
    some (share, .of env job (env.currentJob template) share (x.parsed.filterMap parseJson))
  | _, _ => none

/-- The blocks that were found and decided on; the program does not keep them. -/
structure Fates where
  /-- For each session, the registrations since it looked up the job of its share. -/
  since : Nat → List (Nat × Job) := fun _ => []
  decided : List (ShareSubmission × BlockFate) := []

/-- The session that looks up the job of its share in the step. -/
def Pool.lookingUp (p : Pool) : Event → Option Nat
  | .session s .proceed =>
    match (p.sessions[s]?).map Session.pc with
    | some (.submitting _ (.lookup _)) => some s
    | _ => none
  | _ => none

/-- The fate that a step of the pool decides. -/
def Pool.deciding (env : PoolEnv) (parseJson : String → Option Sv1Request) (p : Pool)
    (since : Nat → List (Nat × Job)) : Event → Option (ShareSubmission × BlockFate)
  | .session s e => (p.sessions[s]?).bind fun x =>
    x.deciding env parseJson p.shared s (since s) e
  | _ => none

def Fates.record (env : PoolEnv) (parseJson : String → Option Sv1Request) (fates : Fates)
    (p : Pool) (e : Event) : Fates where
  since i := if p.lookingUp e = some i then [] else fates.since i ++ (p.registration e).toList
  decided := fates.decided ++ (p.deciding env parseJson fates.since e).toList

/-- The pool with its ledger and the fates of the blocks that were found. -/
def fateMachine (env : PoolEnv) (parseJson : String → Option Sv1Request) :
    Machine ((Pool × Ledger) × Fates) Event :=
  (ledgerMachine env parseJson).track {} fun s e fates => fates.record env parseJson s.1 e

/-! ## Blocks in flight -/

/-- The share that is recorded as a block and not yet decided on. -/
def SessionPc.undecided : SessionPc → List ShareSubmission
  | .submitting _ (.reporting share .block _) | .submitting _ (.relookup share _)
  | .submitting _ (.fetching share _ _) => [share]
  | _ => []

@[simp] theorem SessionPc.undecided_respond (env : PoolEnv) (response : Sv1Response)
    (notify : Option Job) : (respond env response notify).undecided = [] := by
  cases notify <;> rfl

@[simp] theorem SessionPc.undecided_start (id : Option Value) (share : ShareSubmission) :
    (SessionPc.submitting id (.start share)).undecided = [] := by
  rw [SubmitStage.start]
  split <;> rfl

/-- The shares of the verdicts that find a block. -/
def foundBlocks (recorded : List JudgedShare) : List ShareSubmission :=
  (recorded.filter fun v => v.2 = .block).map Prod.fst

theorem foundBlocks_append (recorded recorded' : List JudgedShare) :
    foundBlocks (recorded ++ recorded') = foundBlocks recorded ++ foundBlocks recorded' := by
  rw [foundBlocks, List.filter_append, List.map_append]
  rfl

namespace Session

variable {shared shared' : Shared} {x x' : Session} {e : SessionEvent}

/-- A block that a step finds is held until a step decides on it. -/
theorem StepTo.deciding_eq (h : StepTo env parseJson shared x e shared' x')
    (i : Nat) (since : List (Nat × Job)) :
    foundBlocks (x.recording e).toList ++ x.pc.undecided =
      ((x.deciding env parseJson shared i since e).toList.map Prod.fst) ++ x'.pc.undecided := by
  cases h with
  | arrive | peerClose => rw [deciding.eq_3] <;> simp [recording, foundBlocks]
  | readPending pc | readEnd pc | readBlank pc | readInvalid pc | readDone pc | readAuthorize pc
  | recvLagged pc | recvSkip pc | recvNotify pc | authorized pc | lookup pc
  | registered pc | blockSubmitted pc | wroteNext pc | wroteResponse pc | wroteNotify pc
  | writeFailed pc | reportedBlock pc | notSubmitted pc | panicked pc | submitted pc =>
    simp [deciding, recording, foundBlocks, pc, SessionPc.undecided, finish]
  | readSubmit pc =>
    dsimp only
    rw [SessionPc.undecided_start]
    simp [deciding, recording, foundBlocks, pc, SessionPc.undecided]
  | @recorded id share result validated pc =>
    cases result <;> simp [deciding, recording, foundBlocks, pc, SessionPc.undecided]
  | @reported id share result validated pc noBlock =>
    cases result with
    | block => exact absurd rfl noBlock
    | _ => simp [deciding, recording, foundBlocks, pc, SessionPc.undecided, finish]
  | relookupNone pc get | relookup pc get =>
    simp [deciding, recording, foundBlocks, pc, SessionPc.undecided, finish, get]

/-- The calls of the submitter are the decisions to submit. -/
theorem StepTo.submitted_eq (h : StepTo env parseJson shared x e shared' x')
    (i : Nat) (since : List (Nat × Job)) :
    shared'.submitted.map (fun sub => (sub.share, sub.candidate)) =
      shared.submitted.map (fun sub => (sub.share, sub.candidate)) ++
        (x.deciding env parseJson shared i since e).toList.filterMap
          fun f => f.2.candidate?.map (f.1, ·) := by
  cases h with
  | submitted pc step => simp [deciding, pc, BlockFate.of_submitBlock step, BlockFate.candidate?]
  | notSubmitted pc step => simp [deciding, pc, BlockFate.candidate?_of step]
  | @panicked template id share job validated pc step =>
    have hstep : ∀ candidate, maybeSubmitStep env job (env.currentJob template) share ≠
        some (.submitBlock candidate) := by
      simp [step]
    simp [deciding, pc, BlockFate.candidate?_of hstep]
  | arrive | peerClose => rw [deciding.eq_3] <;> simp
  | relookupNone pc get | relookup pc get => simp [deciding, pc, get, BlockFate.candidate?]
  | readPending pc | readEnd pc | readBlank pc | readInvalid pc | readDone pc | readAuthorize pc
  | readSubmit pc | recvLagged pc | recvSkip pc | recvNotify pc | authorized pc | lookup pc
  | registered pc | blockSubmitted pc | wroteNext pc | wroteResponse pc | wroteNotify pc
  | writeFailed pc | recorded pc | reported pc | reportedBlock pc =>
    simp [deciding, pc]

end Session

/-! ## Behind a decision -/

/-- The job the share was validated against. -/
def SubmitStage.validated : SubmitStage → Option Job
  | .lookup _ => none
  | .recording _ _ validated | .reporting _ _ validated | .relookup _ validated
  | .fetching _ _ validated | .submitting _ _ validated => validated

/-- A block is found on a job, and goes on with a job of the share's id. -/
def SubmitStage.OnJob : SubmitStage → Prop
  | .recording _ result validated | .reporting _ result validated =>
    result = .block → validated ≠ none
  | .relookup _ validated => validated ≠ none
  | .fetching share job _ => job.jobId = share.jobId
  | _ => True

theorem SubmitStage.onJob_start (share : ShareSubmission) : (start share).OnJob := by
  rw [start]
  split
  · next result hresult =>
    rintro rfl
    cases kind_of_rejectShape hresult
  · trivial

namespace Session

variable {shared shared' : Shared} {x x' : Session} {e : SessionEvent}

theorem StepTo.onJob (hstep : StepTo env parseJson shared x e shared' x')
    (hids : ∀ id job, shared.registry.getJob id = some job → job.jobId = id)
    (h : ∀ stage ∈ x.pc.submitStage, stage.OnJob) : ∀ stage ∈ x'.pc.submitStage, stage.OnJob := by
  cases hstep with
  | arrive | peerClose | readPending | readBlank | recvLagged | recvSkip => exact h
  | readSubmit =>
    rintro _ ⟨⟩
    exact SubmitStage.onJob_start _
  | lookup =>
    rintro _ ⟨⟩ hblock
    obtain ⟨job, hjob⟩ := exists_of_judge_eq_block hblock
    simp [hjob]
  | @recorded id share result validated pc =>
    rw [pc] at h
    have hstage : result = .block → validated ≠ none := h _ rfl
    rintro _ ⟨⟩
    exact hstage
  | @reportedBlock id share validated pc =>
    rw [pc] at h
    have hstage : validated ≠ none := h _ rfl rfl
    rintro _ ⟨⟩
    exact hstage
  | relookup pc get =>
    rintro _ ⟨⟩
    exact hids _ _ get
  | submitted =>
    rintro _ ⟨⟩
    trivial
  | _ => simp [SessionPc.submitStage_eq_some, finish]

/-- The job that a share was validated against is the one it was looked up with. -/
theorem StepTo.validated (hstep : StepTo env parseJson shared x e shared' x') :
    ∀ stage ∈ x'.pc.submitStage, ∀ job ∈ stage.validated,
      (∃ stage₀ ∈ x.pc.submitStage, stage₀.share = stage.share ∧ job ∈ stage₀.validated) ∨
        e = .proceed ∧ (∃ id, x.pc = .submitting id (.lookup stage.share)) ∧
          shared.registry.getJob stage.share.jobId = some job := by
  cases hstep with
  | arrive | peerClose | readPending | readBlank | recvLagged | recvSkip =>
    exact fun stage hstage job hjob => .inl ⟨stage, hstage, rfl, hjob⟩
  | readSubmit =>
    rintro _ ⟨⟩ job hjob
    rw [SubmitStage.start] at hjob
    split at hjob <;> cases hjob
  | lookup pc =>
    rintro _ ⟨⟩ job hjob
    exact .inr ⟨rfl, ⟨_, pc⟩, hjob⟩
  | recorded pc | reportedBlock pc | relookup pc | submitted pc =>
    rintro _ ⟨⟩ job hjob
    exact .inl ⟨_, congrArg SessionPc.submitStage pc, rfl, hjob⟩
  | _ => simp [SessionPc.submitStage_eq_some, finish]

end Session

theorem onJob_of_runsTo {Ok : Pool → Event → Prop} {es : List Event} {p : Pool}
    (h : (poolMachine env parseJson).RunsTo Ok es p) {s : Nat} {x : Session}
    (hx : p.sessions[s]? = some x) : ∀ stage ∈ x.pc.submitStage, stage.OnJob := by
  refine session_invariant (I := fun x => ∀ stage ∈ x.pc.submitStage, stage.OnJob) ?_ ?_ ?_ h hx
  · simp [SessionPc.submitStage]
  · exact fun run _ _ honJob hstep => hstep.onJob (jobId_of_getJob run) honJob
  · exact fun honJob _ => honJob

/-! ## The registrations since a lookup -/

theorem Pool.lookingUp_eq_some {p : Pool} {e : Event} {i : Nat} :
    p.lookingUp e = some i ↔ e = .session i .proceed ∧
      ∃ x id share, p.sessions[i]? = some x ∧ x.pc = .submitting id (.lookup share) := by
  unfold lookingUp
  split
  · next s =>
    split
    · next id share hpc =>
      obtain ⟨x, get, pc⟩ := Option.map_eq_some_iff.mp hpc
      constructor
      · rintro ⟨⟩
        exact ⟨rfl, x, id, share, get, pc⟩
      · rintro ⟨⟨⟩, -⟩
        rfl
    · next hpc =>
      simp only [false_iff, reduceCtorEq]
      rintro ⟨⟨⟩, x, id, share, get, pc⟩
      exact hpc id share (by rw [get, Option.map_some, pc])
  · next hne =>
    simp only [false_iff, reduceCtorEq]
    rintro ⟨rfl, -⟩
    exact hne i rfl

/-- A session in `on_submit` registers no job. -/
theorem Pool.registration_of_submitStage {p : Pool} {i : Nat} {x : Session}
    (get : p.sessions[i]? = some x) {stage : SubmitStage} (hstage : stage ∈ x.pc.submitStage)
    (e : SessionEvent) : p.registration (.session i e) = none := by
  rw [Option.eq_none_iff_forall_ne_some]
  rintro ⟨j, job⟩ hreg
  obtain ⟨⟨⟩, y, gety, pc⟩ := Pool.registration_eq_some.mp hreg
  cases gety.symm.trans get
  rw [pc] at hstage
  cases hstage

/-- The share of session `i` was validated against a job, and the registry holds it still, or the
last of those that other sessions have registered since. -/
structure RegisteredSince (p : Pool) (i : Nat) (since : List (Nat × Job)) (share : ShareSubmission)
    (job : Job) : Prop where
  id : job.jobId = share.jobId
  others : ∀ r ∈ since, r.1 ≠ i
  registry : p.shared.registry = .cell (some ((since.getLast?.map Prod.snd).getD job))

/-- What is found in the registry is what it holds. -/
theorem RegisteredSince.of_getJob {Ok : Pool → Event → Prop} {es : List Event} {p : Pool}
    (run : (poolMachine env parseJson).RunsTo Ok es p) (i : Nat) {share : ShareSubmission}
    {job : Job} (h : p.shared.registry.getJob share.jobId = some job) :
    RegisteredSince p i [] share job := by
  obtain ⟨hist, hrun⟩ := run.exists_track [] fun p e h => h ++ (p.registration e).toList
  have hregistry := registry_eq_of_runsTo hrun
  rw [hregistry, ActiveJobRegistry.getJob_cell_eq_some] at h
  obtain ⟨hlast, hid⟩ := h
  exact ⟨hid.symm, nofun, hregistry.trans (by rw [hlast]; rfl)⟩

namespace RegisteredSince

variable {Ok : Pool → Event → Prop} {es : List Event} {p p' : Pool} {e : Event} {i : Nat}
  {since : List (Nat × Job)} {share : ShareSubmission} {job : Job}

/-- A step keeps it that is no registration of the session itself. -/
theorem step (h : RegisteredSince p i since share job)
    (run : (poolMachine env parseJson).RunsTo Ok es p) (hstep : p.step env parseJson e = some p')
    (hother : ∀ r ∈ p.registration e, r.1 ≠ i) :
    RegisteredSince p' i (since ++ (p.registration e).toList) share job := by
  have hregistry := registry_of_step run hstep
  cases hreg : p.registration e with
  | none =>
    rw [hreg] at hregistry
    rw [Option.toList_none, List.append_nil]
    exact ⟨h.id, h.others, hregistry.trans h.registry⟩
  | some r =>
    rw [hreg] at hregistry
    refine ⟨h.id, ?_, ?_⟩
    · simp only [Option.toList_some, List.forall_mem_append, List.forall_mem_singleton]
      exact ⟨h.others, hother r hreg⟩
    · rw [hregistry]
      simp

theorem record {fates : Fates} (h : RegisteredSince p i (fates.since i) share job)
    (run : (poolMachine env parseJson).RunsTo Ok es p) (hstep : p.step env parseJson e = some p')
    (hother : ∀ r ∈ p.registration e, r.1 ≠ i) (hlookup : p.lookingUp e ≠ some i) :
    RegisteredSince p' i ((fates.record env parseJson p e).since i) share job := by
  simp only [Fates.record, if_neg hlookup]
  exact h.step run hstep hother

end RegisteredSince

/-- Behind every run, the registry holds what a session has validated its share against, or the last
job that another session has registered since. -/
theorem registeredSince_of_runsTo {es : List Event} {s : (Pool × Ledger) × Fates}
    (h : (fateMachine env parseJson).RunsTo (fun _ _ => True) es s) {i : Nat} {x : Session}
    (get : s.1.1.sessions[i]? = some x) : ∀ stage ∈ x.pc.submitStage, ∀ job ∈ stage.validated,
      RegisteredSince s.1.1 i (s.2.since i) stage.share job := by
  induction h generalizing x with
  | nil => cases get
  | @snoc es s s' e run ok step ih =>
    obtain ⟨⟨p', ledger'⟩, hledger, rfl⟩ := Option.map_eq_some_iff.mp step
    obtain ⟨p', hstep, heq⟩ := Option.map_eq_some_iff.mp hledger
    cases heq
    have hrun := run.of_track.of_track
    intro stage hstage job hjob
    obtain ⟨y, e, gety, rfl, hrule⟩ | ⟨hother, hold⟩ := (Pool.step_cases hstep).session_cases get
    · obtain ⟨stage₀, hstage₀, hshare, hjob₀⟩ | ⟨rfl, ⟨id, pc⟩, hget⟩ :=
        hrule.validated stage hstage job hjob
      · rw [← hshare]
        refine (ih gety stage₀ hstage₀ job hjob₀).record hrun hstep ?_ ?_
        · simp [Pool.registration_of_submitStage gety hstage₀]
        · intro hlookup
          obtain ⟨-, z, id, share, getz, pc⟩ := Pool.lookingUp_eq_some.mp hlookup
          cases getz.symm.trans gety
          rw [pc] at hstage₀
          cases hstage₀
          cases hjob₀
      · -- the lookup itself
        have hlookup : s.1.1.lookingUp (.session i .proceed) = some i :=
          Pool.lookingUp_eq_some.mpr ⟨rfl, y, id, stage.share, gety, pc⟩
        have hreg : s.1.1.registration (.session i .proceed) = none :=
          Pool.registration_of_submitStage gety (congrArg SessionPc.submitStage pc) .proceed
        have hsince : RegisteredSince p' i
            ([] ++ (s.1.1.registration (.session i .proceed)).toList) stage.share job :=
          (RegisteredSince.of_getJob hrun i hget).step hrun hstep (by simp [hreg])
        simpa [Fates.record, hlookup, hreg] using hsince
    · obtain rfl | ⟨y, gety, hy⟩ := hold
      · cases hstage
      · have hpc : x.pc = y.pc := by
          obtain rfl | ⟨job', rfl⟩ := hy <;> rfl
        rw [hpc] at hstage
        refine (ih gety stage hstage job hjob).record hrun hstep ?_ ?_
        · rintro ⟨j, job'⟩ hreg rfl
          exact hother _ (Pool.registration_eq_some.mp hreg).1
        · exact fun hlookup => hother _ (Pool.lookingUp_eq_some.mp hlookup).1

/-! ## The reasons -/

/-- A block is decided against for a reason: of the templates answered in the run, another session
has registered the job of one of another height since the share was looked up, the daemon answers
with one of another height, or the share's cannot be put together. -/
def BlockFate.Justified (env : PoolEnv) (es : List Event) (share : ShareSubmission) :
    BlockFate → Prop
  | .submitted _ => True
  | .displaced session since => ∃ template ∈ answers es, ∃ r ∈ since.getLast?, r.1 ≠ session ∧
    env.currentJob (.ok (some template)) = some r.2 ∧ decimal template.height ≠ share.jobId
  | .stale current => ∃ template ∈ answers es,
    env.currentJob (.ok (some template)) = some current ∧ decimal template.height ≠ share.jobId
  | .unassembled job requests => ∃ template ∈ answers es,
    env.currentJob (.ok (some template)) = some job ∧ decimal template.height = share.jobId ∧
      ((∀ req ∈ requests, req.method ≠ "mining.subscribe") ∨
        ∃ entry ∈ template.transactions, ∀ tx, ¬entry.Decodes env.bitcoin tx)

theorem BlockFate.Justified.append {es : List Event} {share : ShareSubmission} {fate : BlockFate}
    (h : fate.Justified env es share) (e : Event) : fate.Justified env (es ++ [e]) share := by
  have hmem : ∀ template ∈ answers es, template ∈ answers (es ++ [e]) := by
    intro template htemplate
    rw [answers, List.filterMap_append]
    exact List.mem_append_left _ htemplate
  cases fate with
  | submitted => trivial
  | displaced | stale | unassembled =>
    obtain ⟨template, htemplate, h⟩ := h
    exact ⟨template, hmem template htemplate, h⟩

/-- The job of an answer has the height as its id. -/
theorem PoolEnv.jobId_of_currentJob {template : BlockTemplate} {job : Job}
    (h : env.currentJob (.ok (some template)) = some job) :
    job.jobId = decimal template.height := by
  obtain ⟨payout, -, hmap⟩ := currentJob_eq_some.mp h
  exact (MappedJob.of_templateToJob hmap).jobId

/-- A job the pool holds is that of an answer. -/
theorem IsAnswered.exists_currentJob {es : List Event} {job : Job} (h : IsAnswered env es job) :
    ∃ template ∈ answers es, env.currentJob (.ok (some template)) = some job := by
  obtain ⟨template, htemplate, hpayout⟩ := h
  exact ⟨template, htemplate, PoolEnv.currentJob_eq_some.mpr hpayout⟩

/-- A registry that has lost the job of a share that was validated has one of another height, which
another session has registered since. -/
theorem justified_displaced {Ok : Pool → Event → Prop} {es : List Event} {p : Pool}
    (h : (poolMachine env parseJson).RunsTo Ok es p) {s : Nat} {since : List (Nat × Job)}
    {share : ShareSubmission} {job : Job} (hsince : RegisteredSince p s since share job)
    (hnone : p.shared.registry.getJob share.jobId = none) :
    (BlockFate.displaced s since).Justified env es share := by
  have hregistry := hsince.registry
  cases hlast : since.getLast? with
  | none =>
    -- nothing was registered since, and the job is still there
    have hjob : p.shared.registry.getJob share.jobId = some job := by
      rw [hregistry, ActiveJobRegistry.getJob_cell_eq_some, hlast]
      exact ⟨rfl, hsince.id.symm⟩
    cases hnone.symm.trans hjob
  | some r =>
    have hcell : p.shared.registry.getJob r.2.jobId = some r.2 := by
      rw [hregistry, ActiveJobRegistry.getJob_cell_eq_some, hlast]
      exact ⟨rfl, rfl⟩
    obtain ⟨template, htemplate, hcurrent⟩ :=
      ((answered_of_runsTo h).shared.registry _ _ hcell).exists_currentJob
    refine ⟨template, htemplate, r, hlast, hsince.others r (List.mem_of_getLast? hlast), hcurrent,
      ?_⟩
    rw [← PoolEnv.jobId_of_currentJob hcurrent]
    intro hid
    rw [← hid, hcell] at hnone
    cases hnone

/-- A stale job has another height than the daemon's. -/
theorem justified_stale {es : List Event} {share : ShareSubmission} {job current : Job}
    (hjob : env.IsMapped job) (hid : job.jobId = share.jobId)
    (hcurrent : ∃ template ∈ answers es, env.currentJob (.ok (some template)) = some current)
    (hstale : isStale job (some current) = true) :
    (BlockFate.stale current).Justified env es share := by
  obtain ⟨template, htemplate, hcurrent⟩ := hcurrent
  refine ⟨template, htemplate, hcurrent, ?_⟩
  rw [← PoolEnv.jobId_of_currentJob hcurrent, ← hid]
  intro heq
  have hheight := (PoolEnv.isMapped_of_currentJob hcurrent).jobId_eq_iff hjob |>.mp heq
  have hfresh : isStale job (some current) = false :=
    isStale_eq_false.mpr fun c hc => by cases hc; exact ⟨heq, hheight⟩
  rw [hfresh] at hstale
  cases hstale

/-- The bodies of entries that decode do. -/
theorem isOk_of_forall_decodes {bitcoin : BitcoinCrate} {entries : List TransactionEntry}
    {bodies : List Bytes}
    (hbodies : List.Forall₂ (fun entry bytes => Hex.decode entry.data.text = .ok bytes) entries
      bodies)
    (hall : ∀ entry ∈ entries, ∃ tx, entry.Decodes bitcoin tx) :
    ∀ txBytes ∈ bodies, (bitcoin.deserialize txBytes).isOk = true := by
  induction hbodies with
  | nil => simp
  | cons hbody _ ih =>
    rw [List.forall_mem_cons] at hall ⊢
    obtain ⟨⟨tx, bytes, hbytes, htx⟩, hrest⟩ := hall
    refine ⟨?_, ih hrest⟩
    cases hbody.symm.trans hbytes
    rw [htx]
    rfl

/-- A job that is not stale, and cannot be put together for a share in shape, has a transaction that
does not decode, unless the session has read no `mining.subscribe`. -/
theorem justified_unassembled (hbitcoin : env.bitcoin.FollowsFormat) {es : List Event}
    {share : ShareSubmission} {job : Job} {current : Option Job} (hjob : IsAnswered env es job)
    (hlength : ∀ template ∈ answers es, template.transactions.length ≤ isizeMax)
    (hid : job.jobId = share.jobId) (hshape : rejectShape share = none) {requests : List Sv1Request}
    {extranonce1 : Bytes} (hen1 : shareExtranonce1 share = .ok extranonce1)
    (hlen2 : share.extraNonce2.length = extranonce1.length)
    (hlen1 : extranonce1.length = 4 ∨ extranonce1.length = 0 ∧
      ∀ req ∈ requests, req.method ≠ "mining.subscribe")
    (hfresh : isStale job current = false)
    (hsubmit : ∀ candidate, maybeSubmitStep env job current share ≠ some (.submitBlock candidate)) :
    (BlockFate.unassembled job requests).Justified env es share := by
  obtain ⟨template, htemplate, hcurrent⟩ := hjob.exists_currentJob
  obtain ⟨payout, -, hmap⟩ := PoolEnv.currentJob_eq_some.mp hcurrent
  refine ⟨template, htemplate, hcurrent, ?_, ?_⟩
  · rw [← hid, PoolEnv.jobId_of_currentJob hcurrent]
  obtain hlen4 | ⟨-, hnever⟩ := hlen1
  · right
    obtain ⟨flags, commitment, txs, -, -, hbodies, -, hassembly⟩ :=
      (MappedJob.of_templateToJob hmap).blockAssembly
    have hforall := forall₂_of_decodeTransactionsFrom hbodies
    by_contra hsome
    have hall : ∀ entry ∈ template.transactions, ∃ tx, entry.Decodes env.bitcoin tx := by
      simpa using hsome
    -- all transactions decode, so a block is put together
    have hnot : ¬∃ candidate, maybeSubmitStep env job current share =
        some (.submitBlock candidate) := fun ⟨candidate, h⟩ => hsubmit candidate h
    rw [exists_submitBlock_iff] at hnot
    refine hnot ⟨hfresh, extranonce1, hen1, ?_, ?_⟩
    · rw [resolvedVersion_of_rejectShape hshape]
      rfl
    · have hlen : (extranonce1 ++ share.extraNonce2).length = 8 := by
        rw [List.length_append, hlen2, hlen4]
      have hminer : reconstructMinerCoinbase job extranonce1 share.extraNonce2 =
          job.coinbasePart1 ++ (extranonce1 ++ share.extraNonce2) ++ job.coinbasePart2 := by
        simp only [reconstructMinerCoinbase, List.append_assoc]
      obtain ⟨commitment, before, after, hcut⟩ := exists_cutCoinbase hbitcoin hmap
      obtain ⟨-, htx⟩ := hcut.decode hlen hbitcoin
      rw [assembles_iff hbitcoin]
      · refine ⟨_, hassembly, ?_, isOk_of_forall_decodes hforall hall⟩
        rw [hminer, htx]
        rfl
      · intro tx htx
        rw [hminer, List.append_assoc] at htx
        exact input_ne_nil_of_templateToJob hbitcoin hmap htx
      · intro blockAssembly hba
        rw [hassembly] at hba
        cases hba
        rw [← hforall.length_eq]
        exact hlength template htemplate
  · exact .inl hnever

/-! ## Every found block is decided on once -/

/-- Found blocks are decided on once, with a call of the submitter or a reason. -/
structure Settles (env : PoolEnv) (es : List Event) (p : Pool) (ledger : Ledger)
    (fates : List (ShareSubmission × BlockFate)) : Prop where
  decided : Conserved (fun x : Session => x.pc.undecided) (foundBlocks ledger.recorded)
    (fates.map Prod.fst) p.sessions
  calls : p.shared.submitted.map (fun sub => (sub.share, sub.candidate)) =
    fates.filterMap fun f => f.2.candidate?.map (f.1, ·)
  justified : ∀ f ∈ fates, f.2.Justified env es f.1

/-- What a step decides has a reason. -/
theorem justified_of_deciding (hbitcoin : env.bitcoin.FollowsFormat) {es : List Event} {p : Pool}
    (h : (poolMachine env parseJson).RunsTo (fun _ _ => True) es p) {e : Event}
    (hlength : ∀ template ∈ answers (es ++ [e]), template.transactions.length ≤ isizeMax)
    {since : Nat → List (Nat × Job)} (hsince : ∀ i x, p.sessions[i]? = some x →
      ∀ stage ∈ x.pc.submitStage, ∀ job ∈ stage.validated,
        RegisteredSince p i (since i) stage.share job)
    {f : ShareSubmission × BlockFate} (hf : p.deciding env parseJson since e = some f) :
    f.2.Justified env (es ++ [e]) f.1 := by
  cases e with
  | poll | connect => cases hf
  | session i e =>
    obtain ⟨x, get, hdeciding⟩ := Option.bind_eq_some_iff.mp hf
    unfold Session.deciding at hdeciding
    split at hdeciding
    · next id share validated pc =>
      split at hdeciding
      · next hnone =>
        cases hdeciding
        have hstage : SubmitStage.relookup share validated ∈ x.pc.submitStage := by rw [pc]; rfl
        obtain ⟨job, rfl⟩ := Option.ne_none_iff_exists'.mp (onJob_of_runsTo h get _ hstage)
        exact (justified_displaced h (hsince i x get _ hstage job rfl) hnone).append _
      · cases hdeciding
    · next id share job validated template pc =>
      cases hdeciding
      dsimp only
      have hid : job.jobId = share.jobId :=
        onJob_of_runsTo h get (.fetching share job validated) (by rw [pc]; rfl)
      have hshape : rejectShape share = none :=
        inShape_of_runsTo h get (.fetching share job validated) (by rw [pc]; rfl)
      have hanswered : IsAnswered env es job :=
        ((answered_of_runsTo h).sessions x (List.mem_of_getElem? get)).pc job
          (by rw [pc]; exact List.mem_cons_self)
      by_cases hsubmit : ∃ candidate,
        maybeSubmitStep env job (env.currentJob template) share = some (.submitBlock candidate)
      · obtain ⟨candidate, hsubmit⟩ := hsubmit
        rw [BlockFate.of_submitBlock hsubmit]
        trivial
      · have hnot : ∀ candidate, maybeSubmitStep env job (env.currentJob template) share ≠
            some (.submitBlock candidate) := fun candidate h => hsubmit ⟨candidate, h⟩
        obtain ⟨c, hc, hstale, hof⟩ | ⟨hfresh, hof⟩ :=
          BlockFate.of_cases hnot (x.parsed.filterMap parseJson)
        · rw [hof]
          obtain ⟨t, rfl⟩ := PoolEnv.exists_of_currentJob hc
          obtain ⟨template', -, payout, -, hmap⟩ := hanswered
          refine justified_stale ⟨template', payout, hmap⟩ hid ⟨t, ?_, hc⟩ (hc ▸ hstale)
          simp [answers, Event.template, SessionEvent.template]
        · rw [hof]
          refine BlockFate.Justified.append ?_ _
          obtain ⟨extranonce1, hen1, hlen2, hlen1⟩ := extranonces_of_runsTo h get pc
          refine justified_unassembled hbitcoin hanswered (fun t ht => hlength t ?_) hid hshape
            hen1 hlen2 hlen1 hfresh hnot
          rw [answers, List.filterMap_append]
          exact List.mem_append_left _ ht
    · cases hdeciding

namespace Settles

variable {es : List Event} {p : Pool} {ledger : Ledger}
  {fates : List (ShareSubmission × BlockFate)}

/-- What is decided has a reason in the longer run too. -/
theorem justified_append (h : Settles env es p ledger fates) (e : Event) :
    ∀ f ∈ fates, f.2.Justified env (es ++ [e]) f.1 :=
  fun f hf => (h.justified f hf).append e

/-- A step of a session settles what it decides. -/
theorem session (h : Settles env es p ledger fates) {i : Nat} {e : SessionEvent} {x x' : Session}
    {shared : Shared} (get : p.sessions[i]? = some x)
    (hrule : Session.StepTo env parseJson p.shared x e shared x') (since : List (Nat × Job))
    (hreason : ∀ f ∈ x.deciding env parseJson p.shared i since e,
      f.2.Justified env (es ++ [.session i e]) f.1) :
    Settles env (es ++ [.session i e])
      { p with shared := shared, sessions := p.sessions.set i x' }
      (ledger.record env parseJson p (.session i e))
      (fates ++ (x.deciding env parseJson p.shared i since e).toList) := by
  refine ⟨?_, ?_, ?_⟩
  · have hrecorded : (ledger.record env parseJson p (.session i e)).recorded =
        ledger.recorded ++ (x.recording e).toList := by
      simp only [Ledger.record, get]
    rw [hrecorded, foundBlocks_append, List.map_append]
    exact h.decided.step get (.of_eq (hrule.deciding_eq i since))
  · rw [hrule.submitted_eq i since, h.calls, List.filterMap_append]
  · simp only [List.forall_mem_append]
    exact ⟨h.justified_append _, fun f hf => hreason f (Option.mem_toList.mp hf)⟩

end Settles

/-- Behind every run, whatever the interleaving, each share that was found to be a block is decided
on once, the submitter was called for the decisions to submit and for no others, and what was not
submitted has a reason. -/
theorem settles_of_runsTo (hbitcoin : env.bitcoin.FollowsFormat) {es : List Event}
    {s : (Pool × Ledger) × Fates} (h : (fateMachine env parseJson).RunsTo (fun _ _ => True) es s)
    (hlength : ∀ template ∈ answers es, template.transactions.length ≤ isizeMax) :
    Settles env es s.1.1 s.1.2 s.2.decided := by
  induction h with
  | nil => exact ⟨.nil, rfl, by simp [fateMachine, Machine.track]⟩
  | @snoc es s s' e run ok step ih =>
    obtain ⟨⟨p', ledger'⟩, hledger, rfl⟩ := Option.map_eq_some_iff.mp step
    obtain ⟨p', hstep, heq⟩ := Option.map_eq_some_iff.mp hledger
    cases heq
    have ih := ih fun template htemplate => hlength template (by
      rw [answers, List.filterMap_append]
      exact List.mem_append_left _ htemplate)
    have hreason : ∀ f ∈ s.1.1.deciding env parseJson s.2.since e,
        f.2.Justified env (es ++ [e]) f.1 := fun f hf =>
      justified_of_deciding hbitcoin run.of_track.of_track hlength
        (fun _ _ get => registeredSince_of_runsTo run get) hf
    simp only [Fates.record]
    cases Pool.step_cases hstep with
    | pollNothing | pollSame =>
      simp only [Pool.deciding, Option.toList_none, List.append_nil]
      exact ⟨ih.decided, ih.calls, ih.justified_append _⟩
    | pollNew =>
      simp only [Pool.deciding, Option.toList_none, List.append_nil]
      exact ⟨ih.decided.map fun x => (by split <;> rfl), ih.calls, ih.justified_append _⟩
    | connect =>
      simp only [Pool.deciding, Option.toList_none, List.append_nil]
      exact ⟨ih.decided.append rfl, ih.calls, ih.justified_append _⟩
    | session get hrule =>
      simp only [Pool.deciding, get, Option.bind_some] at hreason ⊢
      exact ih.session get hrule _ hreason

/-- Session 0 finds a block, and session 1 registers the job of another height before it is looked
up again. -/
def displacing : List Event :=
  [.connect, .connect] ++ handshake 0 (templateAt 100) ++ sendLine 0 submitLine ++
    [.session 0 .proceed, .session 0 .proceed, .session 0 .proceed] ++
    handshake 1 (templateAt 101) ++
    [.session 0 .proceed]

/-- The block is found, its job displaced, and the submitter is not called. -/
theorem settles_fixture : ∃ s share,
    (fateMachine fixtureEnv fixtureJson).run displacing = some s ∧
    foundBlocks s.1.2.recorded = [share] ∧ s.1.1.shared.submitted = [] ∧
    s.2.decided.map Prod.fst = [share] ∧
    Settles fixtureEnv displacing s.1.1 s.1.2 s.2.decided := by
  have hany : ((fateMachine fixtureEnv fixtureJson).run displacing).any (fun s =>
      decide ((foundBlocks s.1.2.recorded).length = 1 ∧ s.1.1.shared.submitted.length = 0 ∧
        s.2.decided.map Prod.fst = foundBlocks s.1.2.recorded)) = true := by
    decide +kernel
  obtain ⟨s, hs, hprops⟩ := (Option.any_eq_true _ _).mp hany
  obtain ⟨hfound, hsubmitted, hfates⟩ := of_decide_eq_true hprops
  obtain ⟨share, hshare⟩ := List.length_eq_one_iff.mp hfound
  have hanswers : answers displacing = [templateAt 100, templateAt 101] := rfl
  exact ⟨s, share, hs, hshare, List.eq_nil_of_length_eq_zero hsubmitted, hfates.trans hshare,
    settles_of_runsTo BitcoinCrate.ofFormat_followsFormat (Machine.runsTo_of_run hs)
      (by rw [hanswers]; simp [templateAt, fixtureTemplate])⟩

end AzcoinPool
