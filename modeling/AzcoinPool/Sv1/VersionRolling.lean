import AzcoinPool.Coin.ShareClassification
import AzcoinPool.Sv1.Connection

/-!
# Version rolling of a connection

The mask in the state of a connection is the one the latest accepted `mining.configure` negotiated
(`run_versionRolling`), and a negotiated mask is a part of `sv1VersionRollingMask` that is not empty
(`mask_of_negotiateVersionRolling`). The session passes version bits on only under a mask, and the
validator takes from them only what is in the mask (`resolvedVersion_xor`): the version of the
header that is hashed differs from the job's in bits of the mask at most
(`rollsWithin_of_submitted`).
-/

namespace AzcoinPool

/-! ## Negotiation -/

/-- What a `mining.configure` negotiates, if it is accepted. -/
def ConnectionInput.negotiated : ConnectionInput → Option (Option Sv1VersionRollingConfig)
  | request req _ _ =>
    match mapRequestToCommand req with
    | .ok (some (.configure _ versionRolling)) =>
      some (versionRolling.bind negotiateVersionRolling)
    | _ => none
  | notified _ => none

/-- What the latest accepted `mining.configure` negotiated. -/
def latestNegotiated (inputs : List ConnectionInput) : Option Sv1VersionRollingConfig :=
  (inputs.filterMap ConnectionInput.negotiated).getLast?.join

theorem latestNegotiated_append_singleton (inputs : List ConnectionInput) (i : ConnectionInput) :
    latestNegotiated (inputs ++ [i]) = i.negotiated.getD (latestNegotiated inputs) := by
  unfold latestNegotiated
  rw [List.filterMap_append, List.getLast?_append]
  cases h : i.negotiated <;> simp [h]

/-- One input keeps the version rolling what was negotiated last. -/
theorem SessionState.input_versionRolling (state : SessionState) (i : ConnectionInput) :
    (state.input i).versionRolling = i.negotiated.getD state.versionRolling := by
  cases i with
  | notified jobId => rfl
  | request req next answer =>
    simp only [SessionState.input, ConnectionInput.negotiated, dispatchRequest]
    cases hcmd : mapRequestToCommand req with
    | error msg => rfl
    | ok cmd? =>
      cases cmd? with
      | none => rfl
      | some cmd =>
        cases cmd with
        | configure extensions versionRolling => rfl
        | subscribe => rfl
        | authorize username password => cases answer <;> rfl
        | submitShare username jobId extraNonce2 ntime nonce versionBits =>
          simp only [Option.getD_none]
          split
          · next hdone =>
            -- a submission that is answered at once is a rejection, which leaves the state
            split at hdone
            · cases hdone; rfl
            · split at hdone
              · cases hdone; rfl
              · split at hdone
                · cases hdone; rfl
                · cases hdone
          · next hauthorize =>
            split at hauthorize
            · cases hauthorize
            · split at hauthorize
              · cases hauthorize
              · split at hauthorize <;> cases hauthorize
          · rfl

/-- Behind any inputs the version rolling is what the latest accepted `mining.configure`
negotiated. -/
theorem run_versionRolling (inputs : List ConnectionInput) :
    (SessionState.run inputs).versionRolling = latestNegotiated inputs := by
  induction inputs using List.reverseRecOn with
  | nil => rfl
  | append_singleton inputs i ih =>
    rw [SessionState.run_append_singleton, SessionState.input_versionRolling, ih,
      latestNegotiated_append_singleton]

/-! ## Masks -/

theorem and_and_not_self (a b : UInt32) : a &&& b &&& ~~~a = 0 := by
  rw [← UInt32.toBitVec_inj]
  apply BitVec.eq_of_getLsbD_eq
  intro i hi
  simp [hi]
  grind

/-- Bits that are merged in under a mask change nothing outside it. -/
theorem merge_xor_and_not (version bits mask : UInt32) :
    ((version &&& ~~~mask ||| bits &&& mask) ^^^ version) &&& ~~~mask = 0 := by
  rw [← UInt32.toBitVec_inj]
  apply BitVec.eq_of_getLsbD_eq
  intro i hi
  simp [hi]
  grind

/-- A negotiated mask is a part of the pool's mask, and not empty. -/
theorem mask_of_negotiateVersionRolling {requested config : Sv1VersionRollingConfig}
    (h : negotiateVersionRolling requested = some config) :
    config.mask ≠ 0 ∧ config.mask &&& ~~~sv1VersionRollingMask = 0 := by
  unfold negotiateVersionRolling at h
  dsimp only at h
  split at h
  · cases h
  · next hmask =>
    cases h
    exact ⟨hmask, and_and_not_self ..⟩

theorem mask_of_latestNegotiated {inputs : List ConnectionInput} {config : Sv1VersionRollingConfig}
    (h : latestNegotiated inputs = some config) :
    config.mask ≠ 0 ∧ config.mask &&& ~~~sv1VersionRollingMask = 0 := by
  have hlast : (inputs.filterMap ConnectionInput.negotiated).getLast? = some (some config) :=
    Option.join_eq_some_iff.mp h
  obtain ⟨i, -, hi⟩ := List.mem_filterMap.mp (List.mem_of_getLast? hlast)
  unfold ConnectionInput.negotiated at hi
  split at hi
  · split at hi
    · obtain ⟨requested, -, hnegotiate⟩ := Option.bind_eq_some_iff.mp (Option.some.inj hi)
      exact mask_of_negotiateVersionRolling hnegotiate
    · cases hi
  · cases hi

/-! ## The version of a header -/

/-- The version bits of a share. -/
def ShareSubmission.versionBits (share : ShareSubmission) : Option UInt32 :=
  share.validationContext.bind (·.versionBits)

/-- The mask a share was submitted under. -/
def ShareSubmission.versionRollingMask (share : ShareSubmission) : Option UInt32 :=
  share.validationContext.bind (·.versionRollingMask)

/-- The version of a share differs from the job's in bits of the mask at most, and not at all
without version bits. -/
theorem resolvedVersion_xor {jobVersion version : UInt32} {share : ShareSubmission}
    (h : resolvedVersion jobVersion share = .ok version) :
    (version ^^^ jobVersion) &&& ~~~(share.versionRollingMask.getD 0) = 0 ∧
      (share.versionBits = none → version = jobVersion) := by
  unfold resolvedVersion at h
  unfold ShareSubmission.versionBits ShareSubmission.versionRollingMask
  split at h
  · cases h; simp
  · next ctx hctx =>
    split at h
    · cases h; simp
    · next bits hbits =>
      split at h
      · cases h
      · next mask hmask =>
        split at h
        · cases h
        · cases h
          simp [hctx, hbits, hmask, merge_xor_and_not]

/-- The version of a share's header keeps within what the connection negotiated. -/
structure RollsWithin (negotiated : Option Sv1VersionRollingConfig) (job : Job)
    (share : ShareSubmission) (version : UInt32) : Prop where
  /-- It differs from the job's only in bits of the mask. -/
  within : (version ^^^ job.version) &&& ~~~((negotiated.map (·.mask)).getD 0) = 0
  /-- The mask is a part of `0x1fffe000`, and not empty. -/
  mask : ∀ config ∈ negotiated, config.mask ≠ 0 ∧ config.mask &&& ~~~0x1fffe000 = 0
  plain : share.versionBits = none → version = job.version
  /-- Without a mask the share has no version bits. -/
  unnegotiated : negotiated = none → share.versionBits = none

/-- A share of the connection that reaches the validator is hashed, on any job, with a version that
keeps within what the latest accepted `mining.configure` negotiated. -/
theorem rollsWithin_of_submitted {inputs : List ConnectionInput} {next : UInt32} {req : Sv1Request}
    {share : ShareSubmission}
    (h : (dispatchRequest next (SessionState.run inputs) req).submitted = some share)
    (hshape : rejectShape share = none) (doubleSha256 : Bytes → Bytes32) (job : Job)
    (extranonce1 : Bytes) (poolDifficulty : UInt32) : ∃ trace version rest,
      buildShareValidationTrace doubleSha256 job share extranonce1 poolDifficulty = .ok trace ∧
      buildSolvedBlockHeader doubleSha256 job share extranonce1 = .ok trace.header ∧
      trace.header = toLeBytes version ++ rest ∧
      RollsWithin (latestNegotiated inputs) job share version := by
  have hresolved := resolvedVersion_of_rejectShape hshape job
  obtain ⟨hxor, hplain⟩ := resolvedVersion_xor hresolved
  obtain ⟨worker, jobId, en2, ntime, nonce, bits, -, -, rfl⟩ := eq_of_dispatch_onSubmit h
  have hmask : (sessionShare (SessionState.run inputs) worker jobId en2 ntime nonce
      bits).versionRollingMask = (latestNegotiated inputs).map (·.mask) := by
    rw [← run_versionRolling]
    rfl
  obtain ⟨trace, rest, htrace, hsolved, hheader⟩ :=
    exists_trace_of_resolvedVersion hresolved doubleSha256 extranonce1 poolDifficulty
  refine ⟨trace, _, rest, htrace, hsolved, hheader, ?_⟩
  refine ⟨?_, fun config hconfig => mask_of_latestNegotiated hconfig, hplain, ?_⟩
  · rw [← hmask]
    exact hxor
  · intro hnone
    show bits = none
    cases bits with
    | none => rfl
    | some b =>
      -- version bits without a mask do not pass the shape checks
      have hv : VersionBitsOutsideMask (sessionShare (SessionState.run inputs) worker jobId en2
          ntime nonce (some b)) := by
        refine ⟨_, rfl, b, rfl, ?_⟩
        intro mask hsome
        have heq : (latestNegotiated inputs).map (·.mask) = some mask := by
          rw [← hmask]
          exact hsome
        rw [hnone] at heq
        cases heq
      exact absurd (.inr hv) ((rejectShape_eq_none _).mp hshape)

/-! ## A fixture -/

/-- A `mining.configure` that asks for all bits. -/
def configureRequest : Sv1Request :=
  ⟨some (.ofU32 4), "mining.configure", some (.array [.array [.string "version-rolling"],
    .object [("version-rolling.mask", .string "ffffffff")]])⟩

/-- A `mining.submit` with version bits. -/
def rollingSubmitRequest : Sv1Request :=
  ⟨some (.ofU32 5), "mining.submit", some (.array [.string "u.w", .string "100",
    .string "11223344", .string "6553f100", .string "12345678", .string "00002000"])⟩

/-- Behind configure, subscribe and authorize a share with version bits is hashed within the mask.
-/
theorem rollsWithin_fixture : ∃ share trace version rest,
    share.versionBits = some 0x2000 ∧
    buildShareValidationTrace (fun _ => Bytes32.fill 0)
      ⟨"100", .fill 0, [], [], [], 0x20000000, 0, 0, true, none⟩ share [] 1 = .ok trace ∧
    trace.header = toLeBytes version ++ rest ∧
    RollsWithin (latestNegotiated [.request configureRequest 1 (.ok none),
        .request subscribeRequest 1 (.ok none), .request authorizeRequest 2 (.ok none)])
      ⟨"100", .fill 0, [], [], [], 0x20000000, 0, 0, true, none⟩ share version := by
  have hsubmit : (dispatchRequest 2 (SessionState.run [.request configureRequest 1 (.ok none),
      .request subscribeRequest 1 (.ok none), .request authorizeRequest 2 (.ok none)])
      rollingSubmitRequest).submitted.any (fun share =>
        decide (share.versionBits = some 0x2000 ∧ rejectShape share = none)) = true := by
    decide +kernel
  obtain ⟨share, hshare, hprops⟩ := (Option.any_eq_true _ _).mp hsubmit
  obtain ⟨hbits, hshape⟩ := of_decide_eq_true hprops
  obtain ⟨trace, version, rest, htrace, -, hheader, hrolls⟩ :=
    rollsWithin_of_submitted hshare hshape (fun _ => Bytes32.fill 0)
      ⟨"100", .fill 0, [], [], [], 0x20000000, 0, 0, true, none⟩ [] 1
  exact ⟨share, trace, version, rest, hbits, htrace, hheader, hrolls⟩

end AzcoinPool
