import AzcoinPool.Coin.TemplateMapper
import AzcoinPool.Core.ShareProcessor
import AzcoinPool.Sv1.Dispatch

/-!
# The extranonces of a connection

The state of a connection over a sequence of requests, with any answers of the handler and any
notifications in between. The extranonces in the state are those of the latest `mining.subscribe`,
or empty before the first (`run_extranonces`), and nothing stops a submission before the first: a
submitted share carries issued extranonces just when there was one (`issuedContext_iff`).
-/

namespace AzcoinPool

/-- What changes the state of a connection. -/
inductive ConnectionInput where
  /-- A request, the value of `NEXT_EXTRANONCE1` at that moment, and what `on_authorize` answers
  should the request get there. -/
  | request (req : Sv1Request) (nextExtranonce1 : UInt32) (answer : Except String (Option Job))
  /-- A `mining.notify` is sent. -/
  | notified (jobId : String)

/-- A request that `mining.subscribe` is the method of. -/
def ConnectionInput.IsSubscribe : ConnectionInput → Prop
  | request req _ _ => req.method = "mining.subscribe"
  | notified _ => False

namespace SessionState

def input (state : SessionState) : ConnectionInput → SessionState
  | .request req nextExtranonce1 answer =>
    match dispatchRequest nextExtranonce1 state req with
    | .done _ state' _ => state'
    | .onAuthorize id username => (finishAuthorize state id username answer).1
    | .onSubmit _ _ => state
  | .notified jobId => { state with lastNotifyJobId := some jobId }

/-- The state behind a sequence of inputs. -/
def run (inputs : List ConnectionInput) : SessionState := inputs.foldl input {}

theorem run_append_singleton (inputs : List ConnectionInput) (i : ConnectionInput) :
    run (inputs ++ [i]) = (run inputs).input i := by
  simp [run, List.foldl_append]

end SessionState

/-- What one input makes of the extranonce1 issued so far. -/
def issueStep (latest : Option UInt32) : ConnectionInput → Option UInt32
  | .request req nextExtranonce1 _ =>
    if req.method = "mining.subscribe" then some nextExtranonce1 else latest
  | .notified _ => latest

/-- The extranonce1 issued by the latest `mining.subscribe`. -/
def latestIssued (inputs : List ConnectionInput) : Option UInt32 := inputs.foldl issueStep none

theorem latestIssued_append_singleton (inputs : List ConnectionInput) (i : ConnectionInput) :
    latestIssued (inputs ++ [i]) = issueStep (latestIssued inputs) i := by
  simp [latestIssued, List.foldl_append]

/-- One was issued just when there was a `mining.subscribe`. -/
theorem latestIssued_isSome (inputs : List ConnectionInput) :
    (latestIssued inputs).isSome ↔ ∃ i ∈ inputs, i.IsSubscribe := by
  induction inputs using List.reverseRecOn with
  | nil => simp [latestIssued]
  | append_singleton inputs i ih =>
    rw [latestIssued_append_singleton]
    simp only [List.mem_append, List.mem_singleton, or_and_right, exists_or, exists_eq_left, ← ih]
    cases i with
    | request req next answer =>
      by_cases hreq : req.method = "mining.subscribe" <;>
        simp [issueStep, ConnectionInput.IsSubscribe, hreq]
    | notified jobId => simp [issueStep, ConnectionInput.IsSubscribe]

/-- The response to the latest `mining.subscribe` hands out the extranonce1, and an extranonce2 of
four bytes. -/
def HandsOut (inputs : List ConnectionInput) (en1 : UInt32) : Prop :=
  ∃ before req nextExtranonce1 answer after next state subscriptions,
    inputs = before ++ .request req nextExtranonce1 answer :: after ∧
    req.method = "mining.subscribe" ∧ (∀ i ∈ after, ¬i.IsSubscribe) ∧
    dispatchRequest nextExtranonce1 (SessionState.run before) req = .done next state
      ⟨req.id, some (.array [subscriptions, .string (lowerHex08 en1), .ofU32 4]), none⟩

/-- What is issued is what the response hands out. -/
theorem handsOut_of_latestIssued {inputs : List ConnectionInput} {en1 : UInt32}
    (h : latestIssued inputs = some en1) : HandsOut inputs en1 := by
  induction inputs using List.reverseRecOn with
  | nil => cases h
  | append_singleton inputs i ih =>
    rw [latestIssued_append_singleton] at h
    by_cases hi : i.IsSubscribe
    · cases i with
      | request req next answer =>
        have hreq : req.method = "mining.subscribe" := hi
        rw [issueStep, if_pos hreq] at h
        cases h
        exact ⟨inputs, req, en1, answer, [], _, _, _, rfl, hreq, nofun,
          dispatchRequest_of_subscribe en1 _ hreq⟩
      | notified jobId => cases hi
    · have hlatest : latestIssued inputs = some en1 := by
        cases i with
        | request req next answer =>
          have hreq : req.method ≠ "mining.subscribe" := hi
          rwa [issueStep, if_neg hreq] at h
        | notified jobId => exact h
      obtain ⟨before, req, nextExtranonce1, answer, after, next, state, subscriptions, rfl, hreq,
        hafter, hdispatch⟩ := ih hlatest
      refine ⟨before, req, nextExtranonce1, answer, after ++ [i], next, state, subscriptions,
        by simp, hreq, ?_, hdispatch⟩
      simp only [List.forall_mem_append, List.forall_mem_singleton]
      exact ⟨hafter, hi⟩

/-! ## The extranonces of the state -/

/-- The extranonces of a state are those issued. -/
def HoldsIssued (state : SessionState) (latest : Option UInt32) : Prop :=
  match latest with
  | some en1 => state.extranonce1 = lowerHex08 en1 ∧ state.extranonce2Size = 4
  | none => state.extranonce1 = "" ∧ state.extranonce2Size = 0

theorem HoldsIssued.congr {state state' : SessionState} {latest : Option UInt32}
    (h : HoldsIssued state latest) (h1 : state'.extranonce1 = state.extranonce1)
    (h2 : state'.extranonce2Size = state.extranonce2Size) : HoldsIssued state' latest := by
  unfold HoldsIssued at *
  rw [h1, h2]
  exact h

theorem HoldsIssued.input {state : SessionState} {latest : Option UInt32}
    (h : HoldsIssued state latest) (i : ConnectionInput) :
    HoldsIssued (state.input i) (issueStep latest i) := by
  cases i with
  | notified jobId => exact h.congr rfl rfl
  | request req next answer =>
    by_cases hreq : req.method = "mining.subscribe"
    · simp only [SessionState.input, dispatchRequest_of_subscribe next state hreq, issueStep,
        if_pos hreq]
      exact ⟨rfl, rfl⟩
    · simp only [SessionState.input, issueStep, if_neg hreq]
      split
      · next hdone =>
        obtain ⟨-, h1, h2⟩ := dispatchRequest_of_not_subscribe hreq hdone
        exact h.congr h1 h2
      · next id username _ =>
        obtain ⟨h1, h2⟩ := finishAuthorize_extranonce state id username answer
        exact h.congr h1 h2
      · exact h

/-- Behind any inputs the extranonces are those of the latest `mining.subscribe`. -/
theorem run_extranonces (inputs : List ConnectionInput) :
    HoldsIssued (SessionState.run inputs) (latestIssued inputs) := by
  induction inputs using List.reverseRecOn with
  | nil => exact ⟨rfl, rfl⟩
  | append_singleton inputs i ih =>
    rw [SessionState.run_append_singleton, latestIssued_append_singleton]
    exact ih.input i

/-! ## The extranonces of a submission -/

/-- A share's context has the four-byte extranonce1 that the latest `mining.subscribe` issued and
was answered with, and expects an extranonce2 of four bytes, together as long as the placeholder in
the coinbase. -/
structure IssuedContext (inputs : List ConnectionInput) (share : ShareSubmission) : Prop where
  context : ∃ ctx en1, share.validationContext = some ctx ∧ latestIssued inputs = some en1 ∧
    ctx.extranonce1Hex = some (lowerHex08 en1) ∧ ctx.expectedExtraNonce2Len = some 4 ∧
    HandsOut inputs en1
  length : ∃ bytes, shareExtranonce1 share = .ok bytes ∧
    bytes.length + 4 = sv1ExtranoncePlaceholder.length

/-- A share that is passed to `on_submit` has the extranonces issued to the connection just when
there was a `mining.subscribe` before it. -/
theorem issuedContext_iff {inputs : List ConnectionInput} {next : UInt32} {req : Sv1Request}
    {share : ShareSubmission}
    (h : (dispatchRequest next (SessionState.run inputs) req).submitted = some share) :
    IssuedContext inputs share ↔ ∃ i ∈ inputs, i.IsSubscribe := by
  obtain ⟨worker, jobId, en2, ntime, nonce, bits, -, -, rfl⟩ := eq_of_dispatch_onSubmit h
  have hrun := run_extranonces inputs
  rw [← latestIssued_isSome, Option.isSome_iff_exists]
  constructor
  · rintro ⟨⟨ctx, en1, -, hissued, -⟩, -⟩
    exact ⟨en1, hissued⟩
  · rintro ⟨en1, hissued⟩
    rw [hissued] at hrun
    obtain ⟨h1, h2⟩ := hrun
    refine ⟨⟨_, en1, rfl, hissued, by rw [h1], by rw [h2]; rfl, handsOut_of_latestIssued hissued⟩,
      (toLeBytes en1).reverse, ?_, ?_⟩
    · simp only [shareExtranonce1, sessionShare, Option.bind_some, h1, Hex.decode_lowerHex08]
    · simp [sv1ExtranoncePlaceholder]

/-! ## Two connections -/

def subscribeRequest : Sv1Request := ⟨some (.ofU32 1), "mining.subscribe", some (.array [])⟩

def authorizeRequest : Sv1Request :=
  ⟨some (.ofU32 2), "mining.authorize", some (.array [.string "u.w", .string "x"])⟩

/-- A `mining.submit` on job `100`. -/
def submitRequest (extraNonce2 : String) : Sv1Request :=
  ⟨some (.ofU32 3), "mining.submit", some (.array [.string "u.w", .string "100",
    .string extraNonce2, .string "6553f100", .string "12345678"])⟩

/-- Behind subscribe and authorize a submission carries the issued extranonce1. -/
theorem issuedContext_fixture : ∃ share,
    (dispatchRequest 2 (SessionState.run
      [.request subscribeRequest 1 (.ok none), .request authorizeRequest 2 (.ok none)])
      (submitRequest "11223344")).submitted = some share ∧
    IssuedContext [.request subscribeRequest 1 (.ok none), .request authorizeRequest 2 (.ok none)]
      share := by
  have hsubmit : (dispatchRequest 2 (SessionState.run
      [.request subscribeRequest 1 (.ok none), .request authorizeRequest 2 (.ok none)])
      (submitRequest "11223344")).submitted.isSome = true := by decide +kernel
  obtain ⟨share, hshare⟩ := Option.isSome_iff_exists.mp hsubmit
  exact ⟨share, hshare, (issuedContext_iff hshare).mpr ⟨_, List.mem_cons_self, rfl⟩⟩

/-- A submission of an authorized connection that never subscribed reaches the handler with an
empty extranonce1 and an expected length of zero, and is in shape. -/
theorem not_issuedContext_fixture : ∃ share,
    (dispatchRequest 1 (SessionState.run [.request authorizeRequest 1 (.ok none)])
      (submitRequest "")).submitted = some share ∧
    rejectShape share = none ∧ (shareExtranonce1 share).toOption = some [] ∧
    ¬IssuedContext [.request authorizeRequest 1 (.ok none)] share := by
  have hsubmit : (dispatchRequest 1 (SessionState.run [.request authorizeRequest 1 (.ok none)])
      (submitRequest "")).submitted.any (fun share =>
        decide (rejectShape share = none ∧ (shareExtranonce1 share).toOption = some [])) =
      true := by
    decide +kernel
  obtain ⟨share, hshare, hprops⟩ := (Option.any_eq_true _ _).mp hsubmit
  obtain ⟨hshape, hen1⟩ := of_decide_eq_true hprops
  refine ⟨share, hshare, hshape, hen1, ?_⟩
  rintro ⟨⟨ctx, en1, -, hissued, -⟩, -⟩
  cases hissued

end AzcoinPool
