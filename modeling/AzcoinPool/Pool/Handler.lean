import AzcoinPool.Coin.CandidateSubmit
import AzcoinPool.Coin.ShareClassification
import AzcoinPool.Coin.TemplateMapper

/-!
# The session handler

`Sv1SessionHandler` of `sv1_handler.rs`. `maybeSubmitStep` is `maybe_submit_block_candidate` between
the answer of `current_job` and the call of the submitter: the guard against stale blocks, the
extranonce1, the header, the candidate. `SubmitStage` is where an `on_submit` stands between its
awaits.
-/

namespace AzcoinPool

/-- What the pool is configured with, and the code it calls that is not its own. -/
structure PoolEnv where
  bitcoin : BitcoinCrate
  doubleSha256 : Bytes → Bytes32
  payoutScriptPubkey : Option Slice
  initialDifficulty : UInt32
  /-- Whether a share sink is configured. -/
  shareSink : Bool

namespace PoolEnv

/-- What `current_job` returns for an answer of the daemon. -/
def currentJob (env : PoolEnv) (template : Except PoolError (Option BlockTemplate)) : Option Job :=
  rpcCurrentJob env.bitcoin env.payoutScriptPubkey template

def shareProcessor (env : PoolEnv) : JobAwareShareProcessor :=
  azcoinShareProcessor env.doubleSha256 env.initialDifficulty env.shareSink

/-- The job is mapped from a template. -/
def IsMapped (env : PoolEnv) (job : Job) : Prop :=
  ∃ template payout, templateToJob env.bitcoin template payout = .ok job

/-- The pool's jobs are mapped from templates. -/
theorem isMapped_of_currentJob {env : PoolEnv}
    {template : Except PoolError (Option BlockTemplate)} {job : Job}
    (h : env.currentJob template = some job) : env.IsMapped job := by
  simp only [currentJob, rpcCurrentJob] at h
  split at h
  · next t =>
    split at h
    · cases h
    · next payout _ =>
      cases hmap : templateToJob env.bitcoin t payout with
      | error e => rw [hmap] at h; cases h
      | ok j => rw [hmap] at h; cases h; exact ⟨t, payout, hmap⟩
  · cases h
  · cases h

namespace IsMapped

variable {env : PoolEnv} {a b : Job}

theorem cleanJobs (h : env.IsMapped a) : a.cleanJobs = true := by
  obtain ⟨_, _, hmap⟩ := h
  exact (MappedJob.of_templateToJob hmap).cleanJobs

theorem jobId_eq (h : env.IsMapped a) : a.jobId = decimal a.height := by
  obtain ⟨_, _, hmap⟩ := h
  exact (MappedJob.of_templateToJob hmap).jobId_eq

/-- Mapped jobs have the same id just when they have the same height. -/
theorem jobId_eq_iff (ha : env.IsMapped a) (hb : env.IsMapped b) :
    a.jobId = b.jobId ↔ a.height = b.height := by
  rw [ha.jobId_eq, hb.jobId_eq, decimal_inj]

end IsMapped

end PoolEnv

/-! ## Submitting a solved block -/

/-- The guard of `maybe_submit_block_candidate`: the current job has another id or height. -/
def isStale (job : Job) (current : Option Job) : Bool :=
  match current with
  | some current => current.jobId ≠ job.jobId || current.height ≠ job.height
  | none => false

/-- `maybe_submit_block_candidate` from the answer of `current_job` to its next await; `none` is its
return without a call of the submitter. -/
def maybeSubmitStep (env : PoolEnv) (job : Job) (current : Option Job) (share : ShareSubmission) :
    Option CandidateStep :=
  if isStale job current then none
  else
    match shareExtranonce1 share with
    | .error _ => none
    | .ok extranonce1 =>
      match buildSolvedBlockHeader env.doubleSha256 job share extranonce1 with
      | .error _ => none
      | .ok solvedHeader =>
        some (candidateStep env.bitcoin solvedHeader job extranonce1 share.extraNonce2)

/-- A candidate that is handed to the submitter comes from a job that is not stale, and its block
starts with the header of the share on that job. -/
theorem maybeSubmitStep_eq_submitBlock {env : PoolEnv} {job : Job} {current : Option Job}
    {share : ShareSubmission} {candidate : BlockCandidate}
    (h : maybeSubmitStep env job current share = some (.submitBlock candidate)) :
    isStale job current = false ∧ ∃ extranonce1 header, shareExtranonce1 share = .ok extranonce1 ∧
      buildSolvedBlockHeader env.doubleSha256 job share extranonce1 = .ok header ∧
      candidateStep env.bitcoin header job extranonce1 share.extraNonce2 =
        .submitBlock candidate := by
  rw [maybeSubmitStep] at h
  split at h
  · cases h
  · next hstale =>
    split at h
    · cases h
    · next extranonce1 hen1 =>
      split at h
      · cases h
      · next header hheader =>
        exact ⟨by simpa using hstale, extranonce1, header, hen1, hheader, Option.some.inj h⟩

theorem isStale_eq_false {job : Job} {current : Option Job} :
    isStale job current = false ↔
      ∀ c, current = some c → c.jobId = job.jobId ∧ c.height = job.height := by
  cases current with
  | none => simp [isStale]
  | some c => simp [isStale]

/-- The submitter is called just when the job is not stale, the extranonce1 decodes, the version
resolves and a block can be assembled. -/
theorem exists_submitBlock_iff {env : PoolEnv} {job : Job} {current : Option Job}
    {share : ShareSubmission} :
    (∃ candidate, maybeSubmitStep env job current share = some (.submitBlock candidate)) ↔
      isStale job current = false ∧ ∃ extranonce1, shareExtranonce1 share = .ok extranonce1 ∧
        (resolvedVersion job.version share).isOk = true ∧
        Assembles env.bitcoin job extranonce1 share.extraNonce2 := by
  constructor
  · rintro ⟨candidate, h⟩
    obtain ⟨hstale, extranonce1, header, hextranonce1, hheader, hstep⟩ :=
      maybeSubmitStep_eq_submitBlock h
    refine ⟨hstale, extranonce1, hextranonce1, ?_,
      (exists_candidateStep_iff (length_of_buildSolvedBlockHeader hheader)).mp ⟨_, hstep⟩⟩
    rw [← isOk_buildSolvedBlockHeader env.doubleSha256 job share extranonce1, hheader]
    rfl
  · rintro ⟨hstale, extranonce1, hextranonce1, hversion, hassembles⟩
    rw [← isOk_buildSolvedBlockHeader env.doubleSha256 job share extranonce1] at hversion
    cases hheader : buildSolvedBlockHeader env.doubleSha256 job share extranonce1 with
    | error e => rw [hheader] at hversion; cases hversion
    | ok header =>
      obtain ⟨candidate, hstep⟩ :=
        (exists_candidateStep_iff (length_of_buildSolvedBlockHeader hheader)).mpr hassembles
      exact ⟨candidate, by simp [maybeSubmitStep, hstale, hextranonce1, hheader, hstep]⟩

/-! ## The awaits of `on_submit` -/

/-- Where an `on_submit` stands. `validated` is the job `process_share` found; the program itself
does not keep it. -/
inductive SubmitStage where
  /-- In `process_share`, in front of the lookup of the job. -/
  | lookup (share : ShareSubmission)
  /-- In `record_share_result`, awaiting the buffer. -/
  | recording (share : ShareSubmission) (result : ShareResult) (validated : Option Job)
  /-- In `record_share_result` behind the buffer, awaiting the sink. -/
  | reporting (share : ShareSubmission) (result : ShareResult) (validated : Option Job)
  /-- A block was found; in front of the second lookup. -/
  | relookup (share : ShareSubmission) (validated : Option Job)
  /-- Awaiting `current_job`. -/
  | fetching (share : ShareSubmission) (job : Job) (validated : Option Job)
  /-- Awaiting `submit_block`. -/
  | submitting (share : ShareSubmission) (candidate : BlockCandidate) (validated : Option Job)
  deriving DecidableEq

/-- `on_submit` up to its first await. -/
def SubmitStage.start (share : ShareSubmission) : SubmitStage :=
  match rejectShape share with
  | some result => .recording share result none
  | none => .lookup share

end AzcoinPool
