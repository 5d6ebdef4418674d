import AzcoinPool.Pool.JobAgreement

/-!
# The block of a share

`on_submit` looks the job of a share up twice: to validate the share, and when it is a block, to
assemble the block. Between the two a session waits, and another session can register another job
under the id. As long as none registers one of different work, every block that is handed to the
submitter starts with the header that was hashed (`submitsValidated_of_runsTo`).
-/

namespace AzcoinPool

variable {env : PoolEnv} {parseJson : String → Option Sv1Request}

/-! ## Blocks and headers -/

/-- The header `process_share` hashed. -/
def BlockSubmission.validatedHeader (env : PoolEnv) (b : BlockSubmission) : Option Bytes := do
  let job ← b.validated
  let extranonce1 ← (shareExtranonce1 b.share).toOption
  (buildSolvedBlockHeader env.doubleSha256 job b.share extranonce1).toOption

/-- A block that was handed to the submitter is that of a share that was validated as a block, and
it starts with the header that was hashed. -/
structure BlockSubmission.Validated (env : PoolEnv) (b : BlockSubmission) : Prop where
  block : env.shareProcessor.judge b.validated b.share = .block
  header : ∃ header ∈ b.validatedHeader env, header <+: b.candidate.rawBlock

/-- A block assembled from a job of the work of the one the share was validated against starts with
the header that was hashed. -/
theorem header_of_maybeSubmitStep {job validated : Job} {current : Option Job}
    {share : ShareSubmission} {candidate : BlockCandidate}
    (h : maybeSubmitStep env job current share = some (.submitBlock candidate))
    (hwork : job.SameWork validated) :
    ∃ header ∈ BlockSubmission.validatedHeader env ⟨share, candidate, some validated⟩,
      header <+: candidate.rawBlock := by
  obtain ⟨-, extranonce1, header, hextranonce1, hheader, hcandidate⟩ :=
    maybeSubmitStep_eq_submitBlock h
  refine ⟨header, ?_, header_prefix_of_candidateStep hcandidate⟩
  rw [buildSolvedBlockHeader_congr hwork] at hheader
  simp [BlockSubmission.validatedHeader, hextranonce1, hheader, Except.toOption]

/-! ## Between the two lookups -/

/-- A session that has found a block goes by the id of the share until the second lookup. -/
def Session.solving : Holding := fun x =>
  match x.pc with
  | .submitting _ (.recording share .block (some validated)) => some (share.jobId, validated)
  | .submitting _ (.reporting share .block (some validated)) => some (share.jobId, validated)
  | .submitting _ (.relookup share (some validated)) => some (share.jobId, validated)
  | _ => none

theorem Session.solving_eq_some {x : Session} {id : String} {held : Job} :
    solving x = some (id, held) ↔ ∃ i share, share.jobId = id ∧
      (x.pc = .submitting i (.recording share .block (some held)) ∨
        x.pc = .submitting i (.reporting share .block (some held)) ∨
        x.pc = .submitting i (.relookup share (some held))) := by
  unfold solving
  split
  · next hpc => simp [hpc, eq_comm]
  · next hpc => simp [hpc, eq_comm]
  · next hpc => simp [hpc, eq_comm]
  · next h₁ h₂ h₃ =>
    simp only [reduceCtorEq, false_iff]
    rintro ⟨i, share, -, hpc | hpc | hpc⟩
    · exact h₁ _ _ _ hpc
    · exact h₂ _ _ _ hpc
    · exact h₃ _ _ _ hpc

theorem Session.solving_sound : Holding.Sound env parseJson solving where
  new := rfl
  receiver := rfl
  registering hpc := by simp [solving, hpc]
  step := by
    intro shared shared' x x' e id held hfacts hstep hheld
    rw [solving_eq_some] at hheld ⊢
    obtain ⟨i, share, rfl, hpc⟩ := hheld
    cases hstep with
    | arrive | peerClose | readPending | readBlank | recvLagged | recvSkip =>
      exact .inl ⟨i, share, rfl, hpc⟩
    | lookup pc =>
      simp only [SessionPc.submitting.injEq, SubmitStage.recording.injEq, reduceCtorEq, and_false,
        or_false] at hpc
      obtain ⟨-, rfl, -, hfound⟩ := hpc
      right
      intro job hget
      rw [hfound] at hget
      cases hget
      rfl
    | recorded pc =>
      simp only [SessionPc.submitting.injEq, SubmitStage.reporting.injEq, reduceCtorEq, and_false,
        false_or, or_false] at hpc
      obtain ⟨rfl, rfl, rfl, rfl⟩ := hpc
      exact .inl ⟨_, _, rfl, .inl pc⟩
    | reportedBlock pc =>
      simp only [SessionPc.submitting.injEq, SubmitStage.relookup.injEq, reduceCtorEq, and_false,
        false_or] at hpc
      obtain ⟨rfl, rfl, rfl⟩ := hpc
      exact .inl ⟨_, _, rfl, .inr (.inl pc)⟩
    | @readSubmit _ _ _ _ _ share' =>
      simp only [SessionPc.submitting.injEq, SubmitStage.start] at hpc
      split at hpc <;> simp at hpc
    | _ => simp [finish] at hpc

/-- What is known of a block in a stage of its `on_submit`. -/
def SubmitStage.BlockFacts (env : PoolEnv) : SubmitStage → Prop
  | .recording share result validated | .reporting share result validated =>
    result = .block → env.shareProcessor.judge validated share = .block
  | .relookup share validated => env.shareProcessor.judge validated share = .block
  | .fetching share job validated =>
    env.shareProcessor.judge validated share = .block ∧ ∃ v, validated = some v ∧ job.SameWork v
  | _ => True

theorem SubmitStage.blockFacts_start (share : ShareSubmission) :
    (SubmitStage.start share).BlockFacts env := by
  rw [start]
  split
  · next result hresult =>
    rintro rfl
    exact absurd (kind_of_rejectShape hresult) (by simp [ShareResult.kind])
  · trivial

/-- A share that is validated as a block is validated against a job. -/
theorem exists_of_judge_eq_block {job? : Option Job} {share : ShareSubmission}
    (h : env.shareProcessor.judge job? share = .block) : ∃ job, job? = some job := by
  cases job? with
  | none => simp [JobAwareShareProcessor.judge] at h
  | some job => exact ⟨job, rfl⟩

def Session.BlockFacts (env : PoolEnv) (x : Session) : Prop :=
  ∀ id stage, x.pc = .submitting id stage → stage.BlockFacts env

/-- A step keeps what is known, as the second lookup finds the work of the first one. -/
theorem Session.BlockFacts.step {shared shared' : Shared} {x x' : Session} {e : SessionEvent}
    (h : x.BlockFacts env) (hagrees : ∀ id held job, solving x = some (id, held) →
      shared.registry.getJob id = some job → job.SameWork held)
    (hstep : StepTo env parseJson shared x e shared' x') : x'.BlockFacts env := by
  intro id stage hpc
  cases hstep with
  | arrive | peerClose | readPending | readBlank | recvLagged | recvSkip => exact h id stage hpc
  | readSubmit => cases hpc; exact SubmitStage.blockFacts_start _
  | lookup => cases hpc; exact fun hblock => hblock
  | recorded pc => cases hpc; exact h _ (.recording _ _ _) pc
  | reportedBlock pc => cases hpc; exact h _ _ pc rfl
  | relookup pc get =>
    cases hpc
    have hjudge := h _ _ pc
    obtain ⟨validated, rfl⟩ := exists_of_judge_eq_block hjudge
    exact ⟨hjudge, validated, rfl,
      hagrees _ _ _ (solving_eq_some.mpr ⟨_, _, rfl, .inr (.inr pc)⟩) get⟩
  | submitted => cases hpc; trivial
  | _ => simp [finish] at hpc

theorem blockFacts_of_runsTo {es : List Event} {p : Pool}
    (h : (poolMachine env parseJson).RunsTo (RegistersSameWork Session.solving) es p) {s : Nat}
    {x : Session} (hx : p.sessions[s]? = some x) : x.BlockFacts env := by
  refine session_invariant (fun _ _ hpc => by cases hpc) ?_ (fun hfacts _ => hfacts) h hx
  intro es p x x' e shared run hx _ hfacts hstep
  exact hfacts.step (fun id held job => registryAgrees_of_runsTo Session.solving_sound run s x id
    held job hx) hstep

/-! ## The submitted blocks -/

theorem Session.StepTo.submitted_cases {shared shared' : Shared} {x x' : Session}
    {e : SessionEvent} (h : StepTo env parseJson shared x e shared' x') :
    shared'.submitted = shared.submitted ∨ ∃ id share job validated current candidate,
      x.pc = .submitting id (.fetching share job validated) ∧
      maybeSubmitStep env job current share = some (.submitBlock candidate) ∧
      shared'.submitted = shared.submitted ++ [⟨share, candidate, validated⟩] := by
  cases h with
  | submitted pc step => exact .inr ⟨_, _, _, _, _, _, pc, step, rfl⟩
  | _ => exact .inl rfl

/-- In every run in which the jobs registered give the same work as those of the same id that other
sessions have found a block on, the blocks handed to the submitter start with the headers that were
hashed. -/
theorem submitsValidated_of_runsTo {es : List Event} {p : Pool}
    (h : (poolMachine env parseJson).RunsTo (RegistersSameWork Session.solving) es p) :
    ∀ b ∈ p.shared.submitted, b.Validated env := by
  induction h with
  | nil =>
    intro b hb
    cases hb
  | snoc run ok step ih =>
    cases Pool.step_cases step with
    | session get hsession =>
      obtain heq | ⟨id, share, job, validated, current, candidate, hpc, hsubmit, heq⟩ :=
        hsession.submitted_cases
      · rwa [heq]
      · intro b hb
        rw [heq, List.mem_append, List.mem_singleton] at hb
        obtain hb | rfl := hb
        · exact ih b hb
        · obtain ⟨hjudge, v, rfl, hwork⟩ := blockFacts_of_runsTo run get id _ hpc
          exact ⟨hjudge, header_of_maybeSubmitStep hsubmit hwork⟩
    | _ => exact ih

/-- Session 0 finds a block on the fixture's template, session 1 is notified of a job, and session 0
goes on to the submitter. -/
def solveAround (template : BlockTemplate) : List Event :=
  [.connect, .connect] ++ handshake 0 (fixtureTemplate []) ++ sendLine 0 submitLine ++
    [.session 0 .proceed] ++ handshake 1 template ++
    [.session 0 .proceed, .session 0 .proceed, .session 0 .proceed,
      .session 0 (.currentJob (.ok (some template)))]

/-- When session 1 is notified of the same job, the block is that of the share. -/
theorem submitsValidated_fixture : ∃ p,
    (poolMachine fixtureEnv fixtureJson).RunsTo (RegistersSameWork Session.solving)
      (solveAround (fixtureTemplate [])) p ∧
    p.shared.submitted.length = 1 ∧ ∀ b ∈ p.shared.submitted, b.Validated fixtureEnv := by
  have hany : (((poolMachine fixtureEnv fixtureJson).guard
      (RegistersSameWork Session.solving)).run (solveAround (fixtureTemplate []))).any
        (fun p => decide (p.shared.submitted.length = 1)) = true := by
    decide +kernel
  obtain ⟨p, hp, hlen⟩ := (Option.any_eq_true _ _).mp hany
  have h := Machine.runsTo_of_run_guard hp
  exact ⟨p, h, of_decide_eq_true hlen, submitsValidated_of_runsTo h⟩

/-- When session 1 is notified of a job on another parent, the share validated as a block is
submitted with another header. -/
theorem not_submitsValidated_fixture : ∃ p,
    (poolMachine fixtureEnv fixtureJson).run (solveAround siblingTemplate) = some p ∧
    ∃ b ∈ p.shared.submitted, fixtureEnv.shareProcessor.judge b.validated b.share = .block ∧
      ∃ header ∈ b.validatedHeader fixtureEnv, ¬header <+: b.candidate.rawBlock := by
  have hany : ((poolMachine fixtureEnv fixtureJson).run (solveAround siblingTemplate)).any
      (fun p => decide (∃ b ∈ p.shared.submitted,
        fixtureEnv.shareProcessor.judge b.validated b.share = .block ∧
          ∃ header ∈ b.validatedHeader fixtureEnv, ¬header <+: b.candidate.rawBlock)) = true := by
    decide +kernel
  obtain ⟨p, hp, hne⟩ := (Option.any_eq_true _ _).mp hany
  exact ⟨p, hp, of_decide_eq_true hne⟩

end AzcoinPool
