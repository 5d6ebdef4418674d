import AzcoinPool.Pool.System

/-!
# The guard against stale blocks

The guard of `maybe_submit_block_candidate` compares ids and heights, and a mapped job's id is its
height: it stops the blocks of another height and no others (`isStale_eq_false_iff`). A block solved
on a parent that has been replaced at the same height is submitted, so that the guard keeps stale
blocks back just when another parent comes with another height (`submitsOnCurrentParent_iff`).
-/

namespace AzcoinPool

variable {env : PoolEnv}

/-- Among mapped jobs, the guard lets those of the current job's height pass. -/
theorem isStale_eq_false_iff {job current : Job} (hjob : env.IsMapped job)
    (hcurrent : env.IsMapped current) :
    isStale job (some current) = false ↔ current.height = job.height := by
  simp only [isStale, Bool.or_eq_false_iff, decide_eq_false_iff_not, ne_eq, Decidable.not_not,
    hcurrent.jobId_eq_iff hjob, and_self]

/-- The block of a share on the job can be assembled. -/
def ShareAssembles (env : PoolEnv) (job : Job) (share : ShareSubmission) : Prop :=
  ∃ extranonce1, shareExtranonce1 share = .ok extranonce1 ∧
    Assembles env.bitcoin job extranonce1 share.extraNonce2

/-- The submitter is called for a block just when the guard lets it pass and it can be assembled. -/
theorem exists_maybeSubmitStep_iff {job : Job} {current : Option Job} {share : ShareSubmission}
    (hblock : env.shareProcessor.judge (some job) share = .block) :
    (∃ candidate, maybeSubmitStep env job current share = some (.submitBlock candidate)) ↔
      isStale job current = false ∧ ShareAssembles env job share := by
  obtain ⟨extranonce1, header, hextranonce1, hheader⟩ := exists_header_of_judge_eq_block hblock
  have hversion : (resolvedVersion job.version share).isOk = true := by
    rw [← isOk_buildSolvedBlockHeader env.doubleSha256 job share extranonce1, hheader]
    rfl
  simp only [exists_submitBlock_iff, ShareAssembles, hversion, true_and]

/-- The current job being another mapped one, the submitter is called for a block only if the two
jobs have the same parent, just when they have it at the same height, or the block cannot be
assembled. -/
theorem submitsOnCurrentParent_iff {job current : Job} {share : ShareSubmission}
    {registry : ActiveJobRegistry} {records : ShareRecords} (hjob : env.IsMapped job)
    (hcurrent : env.IsMapped current) (hget : registry.getJob share.jobId = some job)
    (hblock : (env.shareProcessor.processShare registry records share).1 = .block) :
    ((∃ candidate, maybeSubmitStep env job (some current) share =
        some (.submitBlock candidate)) → job.prevHash = current.prevHash) ↔
      (job.height = current.height → ShareAssembles env job share →
        job.prevHash = current.prevHash) := by
  have hjudge := judge_of_processShare_eq_block hblock
  rw [hget] at hjudge
  rw [exists_maybeSubmitStep_iff hjudge, isStale_eq_false_iff hjob hcurrent, and_imp, eq_comm]

/-- A block on the fixture's template is not submitted when the next height has been reached. -/
theorem submitsOnCurrentParent_fixture : ∃ job current,
    templateToJob .ofFormat (fixtureTemplate []) fixturePayoutScript = .ok job ∧
    templateToJob .ofFormat { siblingTemplate with height := 101 } fixturePayoutScript =
      .ok current ∧
    ((∃ candidate, maybeSubmitStep fixtureEnv job (some current) (fixtureShare "100") =
      some (.submitBlock candidate)) → job.prevHash = current.prevHash) := by
  have hany : (templateToJob .ofFormat (fixtureTemplate []) fixturePayoutScript).toOption.any
      (fun job =>
        (templateToJob .ofFormat { siblingTemplate with height := 101 }
          fixturePayoutScript).toOption.any fun current =>
            decide ((ActiveJobRegistry.new.register job).getJob (fixtureShare "100").jobId =
                some job ∧
              (fixtureEnv.shareProcessor.processShare (ActiveJobRegistry.new.register job) ⟨[], []⟩
                (fixtureShare "100")).1 = .block ∧ job.height ≠ current.height)) = true := by
    decide +kernel
  obtain ⟨job, hjob, hany⟩ := Except.exists_of_any hany
  obtain ⟨current, hcurrent, hprops⟩ := Except.exists_of_any hany
  obtain ⟨hget, hblock, hheight⟩ := of_decide_eq_true hprops
  have hmapped : fixtureEnv.IsMapped job := ⟨_, _, hjob⟩
  have hmapped' : fixtureEnv.IsMapped current := ⟨_, _, hcurrent⟩
  have hiff := submitsOnCurrentParent_iff hmapped hmapped' hget hblock
  exact ⟨job, current, hjob, hcurrent, hiff.mpr fun h => absurd h hheight⟩

/-- It is submitted when another block has come at its own height. -/
theorem not_submitsOnCurrentParent_fixture : ∃ job current candidate,
    templateToJob .ofFormat (fixtureTemplate []) fixturePayoutScript = .ok job ∧
    templateToJob .ofFormat siblingTemplate fixturePayoutScript = .ok current ∧
    (fixtureEnv.shareProcessor.processShare (ActiveJobRegistry.new.register job) ⟨[], []⟩
      (fixtureShare "100")).1 = .block ∧
    maybeSubmitStep fixtureEnv job (some current) (fixtureShare "100") =
      some (.submitBlock candidate) ∧ job.prevHash ≠ current.prevHash := by
  have hany : (templateToJob .ofFormat (fixtureTemplate []) fixturePayoutScript).toOption.any
      (fun job =>
        (templateToJob .ofFormat siblingTemplate fixturePayoutScript).toOption.any fun current =>
          decide ((fixtureEnv.shareProcessor.processShare (ActiveJobRegistry.new.register job)
              ⟨[], []⟩ (fixtureShare "100")).1 = .block ∧
            ((maybeSubmitStep fixtureEnv job (some current) (fixtureShare "100")).bind
              (·.candidate)).isSome = true ∧ job.prevHash ≠ current.prevHash)) = true := by
    decide +kernel
  obtain ⟨job, hjob, hany⟩ := Except.exists_of_any hany
  obtain ⟨current, hcurrent, hprops⟩ := Except.exists_of_any hany
  obtain ⟨hblock, hsubmit, hprev⟩ := of_decide_eq_true hprops
  obtain ⟨candidate, hcandidate⟩ := Option.isSome_iff_exists.mp hsubmit
  obtain ⟨step, hstep, heq⟩ := Option.bind_eq_some_iff.mp hcandidate
  rw [CandidateStep.candidate_eq_some.mp heq] at hstep
  exact ⟨job, current, candidate, hjob, hcurrent, hblock, hstep, hprev⟩

end AzcoinPool
