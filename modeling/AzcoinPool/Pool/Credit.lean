import AzcoinPool.Pool.Ledger

/-!
# Credit is earned

What is recorded of a share in a run is the verdict on it against a job the pool held under the
share's id (`judged_of_runsTo`). So a share the pool accepts has, in a header on a template that the
daemon answered with in the run, a hash below the target it is credited for (`earned_of_runsTo`),
and a pool without a payout script, which maps no template to a job, hands out no work, credits no
share and submits no block (`idle_of_runsTo`).
-/

open Endian

namespace AzcoinPool

variable {env : PoolEnv} {parseJson : String → Option Sv1Request}

/-! ## Verdicts -/

/-- The verdict is the one on the share against a job of the property that has the share's id, or
against none. -/
def JudgedShare.Judged (env : PoolEnv) (P : Job → Prop) (v : JudgedShare) : Prop :=
  ∃ job? : Option Job, (∀ job ∈ job?, P job ∧ job.jobId = v.1.jobId) ∧
    v.2 = (rejectShape v.1).getD (env.shareProcessor.judge job? v.1)

/-- The verdict that is to be recorded is one on the job that was found. -/
def SubmitStage.Judged (env : PoolEnv) : SubmitStage → Prop
  | .lookup share => rejectShape share = none
  | .recording share result validated =>
    (∀ job ∈ validated, job.jobId = share.jobId) ∧
      result = (rejectShape share).getD (env.shareProcessor.judge validated share)
  | _ => True

theorem SubmitStage.judged_start (env : PoolEnv) (share : ShareSubmission) :
    (start share).Judged env := by
  rw [start]
  cases h : rejectShape share with
  | none => exact h
  | some result => exact ⟨by simp, by rw [h]; rfl⟩

/-- The registry has jobs under their ids. -/
theorem jobId_of_getJob {Ok : Pool → Event → Prop} {es : List Event} {p : Pool}
    (h : (poolMachine env parseJson).RunsTo Ok es p) :
    ∀ id job, p.shared.registry.getJob id = some job → job.jobId = id := by
  refine h.invariant (fun p => ∀ id job, p.shared.registry.getJob id = some job → job.jobId = id)
    (by simp [poolMachine]) ?_
  rintro p e p' hids - hstep id job hget
  cases Pool.step_cases hstep with
  | pollNothing | pollSame | pollNew | connect => exact hids id job hget
  | session get step =>
    obtain ⟨j, -, -, -, hregistry⟩ | hregistry := step.registry_eq
    · dsimp only at hget
      rw [hregistry] at hget
      obtain ⟨rfl, rfl⟩ | hget := ActiveJobRegistry.getJob_register_eq_some hget
      · rfl
      · exact hids id job hget
    · dsimp only at hget
      rw [hregistry] at hget
      exact hids id job hget

theorem Session.StepTo.judged {shared shared' : Shared} {x x' : Session} {e : SessionEvent}
    (hstep : StepTo env parseJson shared x e shared' x')
    (hids : ∀ id job, shared.registry.getJob id = some job → job.jobId = id)
    (h : ∀ stage ∈ x.pc.submitStage, stage.Judged env) :
    ∀ stage ∈ x'.pc.submitStage, stage.Judged env := by
  cases hstep with
  | arrive | peerClose | readPending | readBlank | recvLagged | recvSkip => exact h
  | readSubmit =>
    rintro _ ⟨⟩
    exact SubmitStage.judged_start env _
  | @lookup id share pc =>
    rw [pc] at h
    have hshape : rejectShape share = none := h _ rfl
    rintro _ ⟨⟩
    exact ⟨fun job hjob => hids _ job hjob, by rw [hshape]; rfl⟩
  | relookup | submitted | recorded | reportedBlock =>
    rintro _ ⟨⟩
    trivial
  | _ => simp [SessionPc.submitStage_eq_some, finish]

/-- Behind every run, the verdicts that are to be recorded are those on the jobs that were found. -/
theorem stage_judged_of_runsTo {Ok : Pool → Event → Prop} {es : List Event} {p : Pool}
    (h : (poolMachine env parseJson).RunsTo Ok es p) {s : Nat} {x : Session}
    (hx : p.sessions[s]? = some x) : ∀ stage ∈ x.pc.submitStage, stage.Judged env := by
  refine session_invariant (I := fun x => ∀ stage ∈ x.pc.submitStage, stage.Judged env) ?_ ?_ ?_
    h hx
  · simp [SessionPc.submitStage]
  · exact fun run _ _ hjudged hstep => hstep.judged (jobId_of_getJob run) hjudged
  · exact fun hjudged _ => hjudged

/-- What the source's jobs of a run all have, the jobs behind the recorded verdicts have. -/
theorem judged_of_runsTo {P : Job → Prop} {es : List Event} {s : Pool × Ledger}
    (h : (ledgerMachine env parseJson).RunsTo (fun _ _ => True) es s)
    (hsource : SourceMeets env P es) : ∀ v ∈ s.2.recorded, v.Judged env P := by
  induction h with
  | nil => simp [ledgerMachine, Machine.track]
  | @snoc es s s' e run ok step ih =>
    rw [sourceMeets_append_singleton] at hsource
    have ih := ih hsource.1
    obtain ⟨p', hstep, rfl⟩ := Option.map_eq_some_iff.mp step
    cases e with
    | poll | connect => exact ih
    | session i e =>
      simp only [Ledger.record]
      cases get : s.1.sessions[i]? with
      | none => exact ih
      | some x =>
        simp only [List.forall_mem_append]
        refine ⟨ih, fun v hv => ?_⟩
        rw [Option.mem_toList] at hv
        -- the step records what stands in the session
        obtain ⟨id, share, result, validated, hpc, rfl⟩ : ∃ id share result validated,
            x.pc = .submitting id (.recording share result validated) ∧ v = (share, result) := by
          unfold Session.recording at hv
          split at hv
          · split at hv
            · next hpc => cases hv; exact ⟨_, _, _, _, hpc, rfl⟩
            · cases hv
          · cases hv
        have hstage : SubmitStage.Judged env (.recording share result validated) :=
          stage_judged_of_runsTo run.of_track get _ (by rw [hpc]; rfl)
        have hholds := ((holds_of_runsTo run.of_track hsource.1).sessions x
          (List.mem_of_getElem? get)).pc
        rw [hpc] at hholds
        exact ⟨validated, fun job hjob => ⟨hholds job (Option.mem_toList.mpr hjob),
          hstage.1 job hjob⟩, hstage.2⟩

/-! ## Work -/

theorem toNat_max_one (d : UInt32) : (max d 1).toNat = max d.toNat 1 := by
  have hdef : max d 1 = if d ≤ 1 then 1 else d := rfl
  rw [hdef]
  split
  · next h => exact (Nat.max_eq_right h).symm
  · next h => exact (Nat.max_eq_left (Nat.le_of_not_le h)).symm

/-- The share's hash, as a number, on a job. -/
def shareHash (env : PoolEnv) (job : Job) (share : ShareSubmission) (extranonce1 : Bytes) : Nat :=
  leNat (env.doubleSha256 (shareHeader env.doubleSha256 job share extranonce1)).bytes

/-- The largest hash of an accepted share: the target of difficulty 1 over the pool's difficulty. -/
def shareBound (env : PoolEnv) : Nat :=
  beNat (nbitsToTarget diff1Nbits).bytes / max env.initialDifficulty.toNat 1

/-- The share is in shape, and hashes on the job below the target it is credited for: that of the
block, or else that of the pool's difficulty. -/
structure JudgedShare.Earned (env : PoolEnv) (job : Job) (v : JudgedShare) : Prop where
  shape : rejectShape v.1 = none
  work : ∃ extranonce1, shareExtranonce1 v.1 = .ok extranonce1 ∧
    (v.2 = .block ∧ shareHash env job v.1 extranonce1 ≤ beNat (nbitsToTarget job.nbits).bytes ∨
      v.2 = .accepted ∧ beNat (nbitsToTarget job.nbits).bytes < shareHash env job v.1 extranonce1 ∧
        shareHash env job v.1 extranonce1 ≤ shareBound env)

/-- A verdict that credits a share is earned on the job it was judged against. -/
theorem JudgedShare.Judged.earned {P : Job → Prop} {v : JudgedShare} (h : v.Judged env P)
    (haccepted : v.2.isAccepted = true) :
    ∃ job, P job ∧ job.jobId = v.1.jobId ∧ v.Earned env job := by
  obtain ⟨share, result⟩ := v
  obtain ⟨job?, hjob, hresult⟩ := h
  dsimp only at haccepted hjob hresult ⊢
  subst hresult
  cases hshape : rejectShape share with
  | some result =>
    have hkind := kind_of_rejectShape hshape
    rw [hshape, Option.getD_some] at haccepted
    cases result with
    | rejected => cases haccepted
    | _ => cases hkind
  | none =>
    rw [hshape, Option.getD_none] at haccepted
    cases job? with
    | none => cases haccepted
    | some job =>
      refine ⟨job, (hjob job rfl).1, (hjob job rfl).2, hshape, ?_⟩
      simp only [Option.getD_none]
      simp only [PoolEnv.shareProcessor, azcoinShareProcessor, JobAwareShareProcessor.judge] at *
      cases hen1 : shareExtranonce1 share with
      | error e => rw [hen1] at haccepted; cases haccepted
      | ok extranonce1 =>
        simp only [hen1, validateShare_eq, buildSolvedBlockHeader_of_rejectShape hshape,
          leqBe_reverse_iff, beNat_divTargetByDifficulty, toNat_max_one, Nat.max_assoc,
          Nat.max_self, diff1Target] at haccepted ⊢
        refine ⟨extranonce1, rfl, ?_⟩
        rw [shareHash, shareBound]
        split at haccepted
        · next hblock => exact .inl ⟨if_pos hblock, hblock⟩
        · next hblock =>
          split at haccepted
          · next hshare =>
            refine .inr ⟨?_, Nat.lt_of_not_le hblock, hshare⟩
            rw [if_neg hblock, if_pos hshare]
          · cases haccepted

/-- A share the pool credits in a run, with any interleaving of its sessions, hashes below the
target it is credited for, in a header on a template that the daemon answered with in the run. -/
theorem earned_of_runsTo {es : List Event} {s : Pool × Ledger}
    (h : (ledgerMachine env parseJson).RunsTo (fun _ _ => True) es s) :
    ∀ v ∈ s.2.recorded, v.2.isAccepted = true →
      ∃ template ∈ answers es, ∃ payoutScriptPubkey job,
        env.payoutScriptPubkey = some payoutScriptPubkey ∧
        templateToJob env.bitcoin template payoutScriptPubkey = .ok job ∧
        v.1.jobId = decimal template.height ∧ v.Earned env job := by
  intro v hv haccepted
  have hjudged : v.Judged env (IsAnswered env es) :=
    judged_of_runsTo h (fun template htemplate _ hjob =>
      ⟨template, htemplate, PoolEnv.currentJob_eq_some.mp hjob⟩) v hv
  obtain ⟨job, ⟨template, htemplate, payout, hpayout, hmap⟩, hid, hearned⟩ :=
    hjudged.earned haccepted
  refine ⟨template, htemplate, payout, job, hpayout, hmap, ?_, hearned⟩
  rw [← hid, (MappedJob.of_templateToJob hmap).jobId]

/-- A share of the fixture, whose hash is zero, is credited as a block. -/
theorem earned_fixture : ∃ s v job,
    (ledgerMachine fixtureEnv fixtureJson).run ([.connect] ++
      handshake 0 (fixtureTemplate [spendingTransaction]) ++
      solve 0 (fixtureTemplate [spendingTransaction])) = some s ∧
    s.2.recorded = [v] ∧ v.2 = .block ∧ v.Earned fixtureEnv job := by
  have hany : ((ledgerMachine fixtureEnv fixtureJson).run ([.connect] ++
      handshake 0 (fixtureTemplate [spendingTransaction]) ++
      solve 0 (fixtureTemplate [spendingTransaction]))).any
        (fun s => decide (s.2.recorded.map Prod.snd = [.block])) = true := by
    decide +kernel
  obtain ⟨s, hs, hprops⟩ := (Option.any_eq_true _ _).mp hany
  obtain ⟨v, hrecorded, hblock⟩ := List.map_eq_singleton_iff.mp (of_decide_eq_true hprops)
  obtain ⟨template, -, payout, job, -, -, -, hearned⟩ :=
    earned_of_runsTo (Machine.runsTo_of_run hs) v
      (by rw [hrecorded]; exact List.mem_singleton_self v) (by rw [hblock]; rfl)
  exact ⟨s, v, job, hs, hrecorded, hblock, hearned⟩

/-! ## A pool without a payout script -/

/-- Without a payout script no template is mapped: behind any run nothing was broadcast, no miner
was notified, no job is registered, no share was credited and no block submitted. -/
theorem idle_of_runsTo (hpayout : env.payoutScriptPubkey = none) {es : List Event}
    {s : Pool × Ledger} (h : (ledgerMachine env parseJson).RunsTo (fun _ _ => True) es s) :
    s.1.poller.broadcast = [] ∧ (∀ x ∈ s.1.sessions, x.notified = []) ∧
      (∀ id, s.1.shared.registry.getJob id = none) ∧ s.1.shared.submitted = [] ∧
      ∀ v ∈ s.2.recorded, v.2.isAccepted = false := by
  have hsource : SourceMeets env (fun _ => False) es := by
    intro template _ job hjob
    obtain ⟨payout, hsome, -⟩ := PoolEnv.currentJob_eq_some.mp hjob
    rw [hpayout] at hsome
    cases hsome
  have hholds := holds_of_runsTo h.of_track hsource
  refine ⟨List.eq_nil_iff_forall_not_mem.mpr hholds.broadcast,
    fun x hx => List.eq_nil_iff_forall_not_mem.mpr (hholds.sessions x hx).notified,
    fun id => Option.eq_none_iff_forall_ne_some.mpr (hholds.shared.registry id),
    List.eq_nil_iff_forall_not_mem.mpr fun sub hsub => ?_, fun v hv => ?_⟩
  · obtain ⟨-, job, current, hfalse, -⟩ := hholds.shared.submitted sub hsub
    exact hfalse
  · cases haccepted : v.2.isAccepted with
    | false => rfl
    | true =>
      obtain ⟨job, hfalse, -⟩ := (judged_of_runsTo h hsource v hv).earned haccepted
      exact hfalse.elim

/-- A miner of such a pool authorizes without work, and its share is of an unknown job. -/
theorem idle_fixture : ∃ s,
    (ledgerMachine { fixtureEnv with payoutScriptPubkey := none } fixtureJson).run
      ([.poll (.ok (some (fixtureTemplate []))), .connect] ++ sendLine 0 authorizeLine ++
        [.session 0 (.currentJob (.ok (some (fixtureTemplate [])))), .session 0 (.written true)] ++
        sendLine 0 submitLine ++ [.session 0 .proceed]) = some s ∧
    s.2.recorded.length = 1 ∧ s.1.shared.submitted = [] ∧
    ∀ v ∈ s.2.recorded, v.2.isAccepted = false := by
  have hany : ((ledgerMachine { fixtureEnv with payoutScriptPubkey := none } fixtureJson).run
      ([.poll (.ok (some (fixtureTemplate []))), .connect] ++ sendLine 0 authorizeLine ++
        [.session 0 (.currentJob (.ok (some (fixtureTemplate [])))), .session 0 (.written true)] ++
        sendLine 0 submitLine ++ [.session 0 .proceed])).any
          (fun s => decide (s.2.recorded.length = 1)) = true := by
    decide +kernel
  obtain ⟨s, hs, hlen⟩ := (Option.any_eq_true _ _).mp hany
  obtain ⟨-, -, -, hsubmitted, hrejected⟩ := idle_of_runsTo rfl (Machine.runsTo_of_run hs)
  exact ⟨s, hs, of_decide_eq_true hlen, hsubmitted, hrejected⟩

end AzcoinPool
