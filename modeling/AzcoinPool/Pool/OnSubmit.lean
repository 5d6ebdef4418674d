import AzcoinPool.Coin.CoinbaseParts
import AzcoinPool.Pool.SubmissionPipeline
import AzcoinPool.Pool.System

/-!
# The calls of the submitter

`on_submit` of `Sv1SessionHandler` with the calls it makes of the submitter, while nothing else
changes the registry. The share processor, the job source and the submitter are whatever the handler
holds. Between a block share and the submitter there are eight early exits in three functions;
`SubmitsBlock` is what is left when none of them is taken. The submitter is called once then, and
not at all otherwise, and the result is the processor's in any case (`onSubmit_calls`).

A commitment makes the coinbase be read, given a witness and written again: a coinbase that reads as
a transaction with an input is then still one (`assembles_iff`).
-/

open Bitcoin

namespace AzcoinPool

/-! ## Calls and outcome -/

def Outcome.map {α β : Type} (f : α → β) : Outcome α → Outcome β
  | returned a => returned (f a)
  | panicked => panicked

/-- What a function does that may call the submitter: the candidates it calls it with, in order, and
its outcome. -/
structure Submission (α : Type) where
  calls : List BlockCandidate
  outcome : Outcome α

namespace Submission

/-- A return without a call. -/
def pure {α : Type} (a : α) : Submission α := ⟨[], .returned a⟩

def map {α β : Type} (f : α → β) (s : Submission α) : Submission β := ⟨s.calls, s.outcome.map f⟩

end Submission

/-- `submit_block_candidate` from its await on. -/
def CandidateStep.submission (submitBlock : BlockCandidate → Except String Bool) :
    CandidateStep → Submission CandidateSubmissionResult
  | .submitBlock candidate => ⟨[candidate], .returned (candidateResult (submitBlock candidate))⟩
  | .finished result => .pure result
  | .panicked => ⟨[], .panicked⟩

/-- Its outcome is that of `submit_block_candidate` as a whole. -/
theorem outcome_submission (bitcoin : BitcoinCrate)
    (submitBlock : BlockCandidate → Except String Bool) (header : Bytes) (job : Job)
    (extranonce1 extraNonce2 : Bytes) :
    ((candidateStep bitcoin header job extranonce1 extraNonce2).submission submitBlock).outcome =
      submitBlockCandidate bitcoin submitBlock header job extranonce1 extraNonce2 := by
  rw [submitBlockCandidate]
  cases candidateStep bitcoin header job extranonce1 extraNonce2 <;> rfl

/-! ## The handler -/

/-- `Sv1SessionHandler` while it handles a share: what the registry holds and what its job source
answers, the share processor and the submitter. -/
structure Sv1SessionHandler where
  env : PoolEnv
  jobRegistry : ActiveJobRegistry
  currentJob : Option Job
  processShare : ShareSubmission → ShareResult
  submitBlock : BlockCandidate → Except String Bool
  /-- A vector is no longer than an allocation. -/
  length_le : ∀ {jobId job blockAssembly}, jobRegistry.getJob jobId = some job →
    job.blockAssembly = some blockAssembly → blockAssembly.templateTransactions.length ≤ isizeMax

namespace Sv1SessionHandler

def maybeSubmitBlockCandidate (handler : Sv1SessionHandler) (share : ShareSubmission) :
    Submission Unit :=
  match handler.jobRegistry.getJob share.jobId with
  | none => .pure ()
  | some job =>
    match maybeSubmitStep handler.env job handler.currentJob share with
    | none => .pure ()
    -- the submission's result is logged
    | some step => (step.submission handler.submitBlock).map fun _ => ()

def onSubmit (handler : Sv1SessionHandler) (share : ShareSubmission) : Submission ShareResult :=
  let result := handler.processShare share
  if result = .block then (handler.maybeSubmitBlockCandidate share).map fun _ => result
  else .pure result

/-! ## When a block is submitted -/

/-- The coinbase of a share, when it reads as a transaction, has an input. -/
def CoinbaseHasInput (handler : Sv1SessionHandler) (share : ShareSubmission) : Prop :=
  ∀ job extranonce1 tx, handler.jobRegistry.getJob share.jobId = some job →
    headerExtranonce1 share = some extranonce1 →
    handler.env.bitcoin.deserialize
      (reconstructMinerCoinbase job extranonce1 share.extraNonce2) = .ok tx →
    tx.input ≠ []

/-- A share was found to be a block on a registered job that is still the current one if there is
any, and a block can be put together. -/
structure IsSubmittable (handler : Sv1SessionHandler) (share : ShareSubmission) (job : Job)
    (extranonce1 : Bytes) (blockAssembly : BlockAssemblyData) : Prop where
  block : handler.processShare share = .block
  registered : handler.jobRegistry.getJob share.jobId = some job
  current : ∀ current, handler.currentJob = some current →
    current.jobId = job.jobId ∧ current.height = job.height
  extranonce1_eq : headerExtranonce1 share = some extranonce1
  version : (resolvedVersion job.version share).isOk = true
  blockAssembly_eq : job.blockAssembly = some blockAssembly
  coinbase : (handler.env.bitcoin.deserialize
    (reconstructMinerCoinbase job extranonce1 share.extraNonce2)).isOk = true
  transactions : ∀ txBytes ∈ blockAssembly.templateTransactions,
    (handler.env.bitcoin.deserialize txBytes).isOk = true

def SubmitsBlock (handler : Sv1SessionHandler) (share : ShareSubmission) : Prop :=
  ∃ job extranonce1 blockAssembly, handler.IsSubmittable share job extranonce1 blockAssembly

end Sv1SessionHandler

/-! ## The coinbase with its witness -/

/-- A coinbase that reads as a transaction with an input still does when its witness is restored. -/
theorem candidateCoinbase_isOk {bitcoin : BitcoinCrate} (hbitcoin : bitcoin.FollowsFormat)
    {job : Job} {extranonce1 extraNonce2 : Bytes}
    (hinput : ∀ tx, bitcoin.deserialize (reconstructMinerCoinbase job extranonce1 extraNonce2) =
      .ok tx → tx.input ≠ []) (blockAssembly : BlockAssemblyData) :
    (∃ coinbase ∈ candidateCoinbase bitcoin job blockAssembly extranonce1 extraNonce2,
      (bitcoin.deserialize coinbase).isOk = true) ↔
      (bitcoin.deserialize (reconstructMinerCoinbase job extranonce1 extraNonce2)).isOk = true := by
  rw [candidateCoinbase]
  split
  · rw [restoreCoinbaseWitness]
    cases htx : bitcoin.deserialize (reconstructMinerCoinbase job extranonce1 extraNonce2) with
    | error e => simp [Except.isOk, Except.toBool]
    | ok tx =>
      obtain ⟨hvalid, -⟩ := transaction.decode_eq_some_nil.mp (hbitcoin.deserialize.mp htx)
      cases hin : tx.input with
      | nil => exact absurd hin (hinput tx htx)
      | cons txIn rest =>
        have hrestored := transaction_valid_of_witness hvalid hin witness_valid_reserved
          (List.cons_ne_nil _ _)
        have hread := hbitcoin.deserialize.mpr
          (transaction.decode_eq_some_nil.mpr ⟨hrestored, rfl⟩)
        simp only [hin, Option.mem_def, Option.some.injEq, exists_eq_left']
        rw [hbitcoin.serialize hrestored, hread]
        exact iff_of_true rfl rfl
  · simp only [Option.mem_def, Option.some.injEq, exists_eq_left']

/-- A block can be assembled just when there are block-assembly data and the transactions decode. -/
theorem assembles_iff {bitcoin : BitcoinCrate} (hbitcoin : bitcoin.FollowsFormat)
    {job : Job} {extranonce1 extraNonce2 : Bytes}
    (hinput : ∀ tx, bitcoin.deserialize (reconstructMinerCoinbase job extranonce1 extraNonce2) =
      .ok tx → tx.input ≠ [])
    (hlength : ∀ blockAssembly, job.blockAssembly = some blockAssembly →
      blockAssembly.templateTransactions.length ≤ isizeMax) :
    Assembles bitcoin job extranonce1 extraNonce2 ↔
      ∃ blockAssembly, job.blockAssembly = some blockAssembly ∧
        (bitcoin.deserialize
          (reconstructMinerCoinbase job extranonce1 extraNonce2)).isOk = true ∧
        ∀ txBytes ∈ blockAssembly.templateTransactions,
          (bitcoin.deserialize txBytes).isOk = true := by
  have hmax : 1 + isizeMax < 2 ^ 64 := by decide
  constructor
  · rintro ⟨blockAssembly, hassembly, coinbase, hcoinbase, hdecodes, htxs, -⟩
    exact ⟨blockAssembly, hassembly,
      (candidateCoinbase_isOk hbitcoin hinput _).mp ⟨coinbase, hcoinbase, hdecodes⟩, htxs⟩
  · rintro ⟨blockAssembly, hassembly, hdecodes, htxs⟩
    obtain ⟨coinbase, hcoinbase, hok⟩ :=
      (candidateCoinbase_isOk hbitcoin hinput blockAssembly).mpr hdecodes
    have hle := hlength blockAssembly hassembly
    exact ⟨blockAssembly, hassembly, coinbase, hcoinbase, hok, htxs, by omega⟩

/-! ## The calls -/

namespace Sv1SessionHandler

variable {handler : Sv1SessionHandler} {share : ShareSubmission}

/-- The coinbase of a share on a mapped job has an input. -/
theorem coinbaseHasInput_of_isMapped (hbitcoin : handler.env.bitcoin.FollowsFormat)
    (hmapped : ∀ job, handler.jobRegistry.getJob share.jobId = some job →
      handler.env.IsMapped job) : handler.CoinbaseHasInput share := by
  intro job extranonce1 tx hget _ htx
  obtain ⟨template, payout, hjob⟩ := hmapped job hget
  simp only [reconstructMinerCoinbase, List.append_assoc] at htx
  exact input_ne_nil_of_templateToJob hbitcoin hjob htx

/-- The step of a handler calls the submitter just when the block is to be submitted. -/
theorem submitsBlock_iff (hbitcoin : handler.env.bitcoin.FollowsFormat)
    (hinput : handler.CoinbaseHasInput share) (hblock : handler.processShare share = .block)
    {job : Job} (hget : handler.jobRegistry.getJob share.jobId = some job) :
    handler.SubmitsBlock share ↔
      ∃ candidate, maybeSubmitStep handler.env job handler.currentJob share =
        some (.submitBlock candidate) := by
  rw [exists_submitBlock_iff, isStale_eq_false]
  simp only [shareExtranonce1_eq_ok]
  have hassembles {extranonce1 : Bytes}
      (hextranonce1 : headerExtranonce1 share = some extranonce1) :=
    assembles_iff hbitcoin (fun tx htx => hinput job extranonce1 tx hget hextranonce1 htx)
      fun blockAssembly h => handler.length_le hget h
  constructor
  · rintro ⟨job', extranonce1, blockAssembly, h⟩
    cases hget.symm.trans h.registered
    exact ⟨h.current, extranonce1, h.extranonce1_eq, h.version, (hassembles h.extranonce1_eq).mpr
      ⟨blockAssembly, h.blockAssembly_eq, h.coinbase, h.transactions⟩⟩
  · rintro ⟨hcurrent, extranonce1, hextranonce1, hversion, h⟩
    obtain ⟨blockAssembly, hassembly, hcoinbase, htxs⟩ := (hassembles hextranonce1).mp h
    exact ⟨job, extranonce1, blockAssembly,
      ⟨hblock, hget, hcurrent, hextranonce1, hversion, hassembly, hcoinbase, htxs⟩⟩

/-- The step of a handler does not panic. -/
theorem maybeSubmitStep_ne_panicked (hinput : handler.CoinbaseHasInput share) {job : Job}
    (hget : handler.jobRegistry.getJob share.jobId = some job) :
    maybeSubmitStep handler.env job handler.currentJob share ≠ some .panicked := by
  intro h
  rw [maybeSubmitStep] at h
  split at h
  · cases h
  · split at h
    · cases h
    · next extranonce1 hextranonce1 =>
      split at h
      · cases h
      · obtain ⟨tx, htx, hnil⟩ := exists_of_candidateStep_eq_panicked (Option.some.inj h)
        exact hinput job extranonce1 tx hget (shareExtranonce1_eq_ok.mp hextranonce1) htx hnil

/-- Whatever the submitter answers, `maybe_submit_block_candidate` returns. -/
theorem outcome_maybeSubmitBlockCandidate (hinput : handler.CoinbaseHasInput share) :
    (handler.maybeSubmitBlockCandidate share).outcome = .returned () := by
  rw [maybeSubmitBlockCandidate]
  split
  · rfl
  · next job hget =>
    have hpanicked := maybeSubmitStep_ne_panicked hinput hget
    split
    · rfl
    · next step hstep =>
      cases step with
      | submitBlock candidate => rfl
      | finished result => rfl
      | panicked => exact absurd hstep hpanicked

/-- `maybe_submit_block_candidate` calls the submitter with what the step hands out. -/
theorem calls_maybeSubmitBlockCandidate {job : Job}
    (hget : handler.jobRegistry.getJob share.jobId = some job) :
    (handler.maybeSubmitBlockCandidate share).calls =
      ((maybeSubmitStep handler.env job handler.currentJob share).bind (·.candidate)).toList := by
  rw [maybeSubmitBlockCandidate, hget]
  dsimp only
  split
  · next hstep => rw [hstep]; rfl
  · next step hstep => rw [hstep]; cases step <;> rfl

/-- A block share is handed to the submitter once when it is submittable. -/
theorem exists_calls_eq_singleton (hbitcoin : handler.env.bitcoin.FollowsFormat)
    (hinput : handler.CoinbaseHasInput share) (h : handler.SubmitsBlock share) :
    ∃ candidate, (handler.maybeSubmitBlockCandidate share).calls = [candidate] := by
  obtain ⟨job, extranonce1, blockAssembly, hsubmittable⟩ := id h
  have hget := hsubmittable.registered
  obtain ⟨candidate, hstep⟩ := (submitsBlock_iff hbitcoin hinput hsubmittable.block hget).mp h
  refine ⟨candidate, ?_⟩
  rw [calls_maybeSubmitBlockCandidate hget, hstep]
  rfl

/-- And only then. -/
theorem calls_eq_nil (hbitcoin : handler.env.bitcoin.FollowsFormat)
    (hinput : handler.CoinbaseHasInput share) (hblock : handler.processShare share = .block)
    (h : ¬handler.SubmitsBlock share) : (handler.maybeSubmitBlockCandidate share).calls = [] := by
  cases hget : handler.jobRegistry.getJob share.jobId with
  | none =>
    rw [maybeSubmitBlockCandidate, hget]
    rfl
  | some job =>
    rw [submitsBlock_iff hbitcoin hinput hblock hget] at h
    rw [calls_maybeSubmitBlockCandidate hget, Option.toList_eq_nil_iff, Option.bind_eq_none_iff]
    intro step hstep
    cases step with
    | submitBlock candidate => exact absurd ⟨candidate, hstep⟩ h
    | finished result => rfl
    | panicked => rfl

/-- An `on_submit` calls the submitter once when the share is a block that is to be submitted, and
not at all otherwise; it returns the result of `process_share` whatever the submitter answers. -/
theorem onSubmit_calls (hbitcoin : handler.env.bitcoin.FollowsFormat)
    (hinput : handler.CoinbaseHasInput share) :
    (handler.SubmitsBlock share → ∃ candidate, (handler.onSubmit share).calls = [candidate]) ∧
      (¬handler.SubmitsBlock share → (handler.onSubmit share).calls = []) ∧
      (handler.onSubmit share).outcome = .returned (handler.processShare share) := by
  by_cases hblock : handler.processShare share = .block
  · have honSubmit : handler.onSubmit share =
        (handler.maybeSubmitBlockCandidate share).map fun _ => handler.processShare share :=
      if_pos hblock
    rw [honSubmit]
    refine ⟨exists_calls_eq_singleton hbitcoin hinput, calls_eq_nil hbitcoin hinput hblock, ?_⟩
    simp only [Submission.map, outcome_maybeSubmitBlockCandidate hinput, Outcome.map]
  · have honSubmit : handler.onSubmit share = .pure (handler.processShare share) := if_neg hblock
    rw [honSubmit]
    refine ⟨fun h => ?_, fun _ => rfl, rfl⟩
    obtain ⟨job, extranonce1, blockAssembly, hsubmittable⟩ := h
    exact absurd hsubmittable.block hblock

/-- A handler with one job that brings no transactions, for which every share is a block and whose
submitter answers with an error. -/
def fixture (job : Job)
    (hassembly : ∀ ba, job.blockAssembly = some ba → ba.templateTransactions = []) :
    Sv1SessionHandler where
  env := fixtureEnv
  jobRegistry := ActiveJobRegistry.new.register job
  currentJob := none
  processShare _ := .block
  submitBlock _ := .error "daemon/RPC error: submitblock rejected: high-hash"
  length_le := by
    intro jobId job' ba hget h
    rcases ActiveJobRegistry.getJob_register_eq_some hget with ⟨-, rfl⟩ | hnew
    · rw [hassembly ba h]
      decide
    · cases hnew

/-- A block on a mapped job is submitted once, and the error that comes back does not show in the
result. -/
theorem onSubmit_calls_fixture : ∃ job hassembly candidate,
    templateToJob .ofFormat (fixtureTemplate []) fixturePayoutScript = .ok job ∧
    ((fixture job hassembly).onSubmit (fixtureShare "100")).calls = [candidate] ∧
    ((fixture job hassembly).onSubmit (fixtureShare "100")).outcome = .returned .block := by
  have hany : (templateToJob .ofFormat (fixtureTemplate []) fixturePayoutScript).toOption.any
      (fun job => decide (job.jobId = "100") && job.cleanJobs &&
        job.blockAssembly.any (·.templateTransactions.isEmpty) &&
        (resolvedVersion job.version (fixtureShare "100")).isOk &&
        (BitcoinCrate.ofFormat.deserialize (reconstructMinerCoinbase job [0, 0, 0, 1]
          (fixtureShare "100").extraNonce2)).isOk) = true := by
    decide +kernel
  obtain ⟨job, hjob, hprops⟩ := Except.exists_of_any hany
  simp only [Bool.and_eq_true, decide_eq_true_eq] at hprops
  obtain ⟨⟨⟨⟨hid, hclean⟩, hassembly⟩, hversion⟩, hcoinbase⟩ := hprops
  obtain ⟨ba, hba, htxs⟩ := (Option.any_eq_true _ _).mp hassembly
  have hnil : ∀ ba', job.blockAssembly = some ba' → ba'.templateTransactions = [] := by
    rintro _ h
    cases h.symm.trans hba
    exact List.isEmpty_iff.mp htxs
  set handler := fixture job hnil
  have hget : handler.jobRegistry.getJob (fixtureShare "100").jobId = some job := by
    change (ActiveJobRegistry.new.register job).getJob "100" = _
    rw [ActiveJobRegistry.getJob_register_of_clean _ hclean, if_pos hid.symm]
  have hinput : handler.CoinbaseHasInput (fixtureShare "100") := by
    refine coinbaseHasInput_of_isMapped BitcoinCrate.ofFormat_followsFormat fun job' h => ?_
    cases hget.symm.trans h
    exact ⟨_, _, hjob⟩
  have hsubmits : handler.SubmitsBlock (fixtureShare "100") :=
    ⟨job, [0, 0, 0, 1], ba, rfl, hget, nofun, rfl, hversion, hba, hcoinbase, by simp [hnil ba hba]⟩
  obtain ⟨hcalls, -, hresult⟩ := onSubmit_calls BitcoinCrate.ofFormat_followsFormat hinput
  obtain ⟨candidate, hcandidate⟩ := hcalls hsubmits
  exact ⟨job, hnil, candidate, hjob, hcandidate, hresult⟩

end Sv1SessionHandler

end AzcoinPool
