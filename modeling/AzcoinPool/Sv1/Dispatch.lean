import AzcoinPool.Core.Job
import AzcoinPool.Sv1.DomainMapper
import AzcoinPool.Sv1.SessionResponses

/-!
# Dispatching a request

`dispatch_request` of `server.rs`, cut at the awaits of the handler: `dispatchRequest` runs up to a
call of the handler or to the end, `finishAuthorize` and `finishSubmit` go on from the handler's
answer. What a request can lead to is said once: the share a submission carries
(`eq_of_dispatch_onSubmit`), and which requests issue an extranonce (`dispatchRequest_of_subscribe`,
`dispatchRequest_of_not_subscribe`).
-/

namespace AzcoinPool

/-- The state of a connection. -/
structure SessionState where
  authorizedWorker : Option WorkerIdentity := none
  subscribed : Bool := false
  extranonce1 : String := ""
  extranonce2Size : UInt32 := 0
  versionRolling : Option Sv1VersionRollingConfig := none
  lastNotifyJobId : Option String := none
  deriving DecidableEq

/-- How far a request gets without the handler. -/
inductive Dispatch where
  /-- Answered, with the counter `NEXT_EXTRANONCE1` and the state behind it. -/
  | done (nextExtranonce1 : UInt32) (state : SessionState) (response : Sv1Response)
  /-- Awaits `on_authorize` of the user name. -/
  | onAuthorize (id : Option Value) (username : String)
  /-- Awaits `on_submit` of the share. -/
  | onSubmit (id : Option Value) (share : ShareSubmission)

/-- The share that is passed to `on_submit`. -/
def Dispatch.submitted : Dispatch → Option ShareSubmission
  | onSubmit _ share => some share
  | _ => none

/-- The share of a `mining.submit`, with what the session knows about it. -/
def sessionShare (state : SessionState) (worker : WorkerIdentity) (jobId : String)
    (extraNonce2 : Bytes) (ntime nonce : UInt32) (versionBits : Option UInt32) :
    ShareSubmission where
  jobId := jobId
  worker := worker
  extraNonce2 := extraNonce2
  ntime := ntime
  nonce := nonce
  validationContext := some {
    expectedExtraNonce2Len := some state.extranonce2Size.toNat
    extranonce1Hex := some state.extranonce1
    versionRollingMask := state.versionRolling.map (·.mask)
    versionBits := versionBits }

def dispatchRequest (nextExtranonce1 : UInt32) (state : SessionState) (req : Sv1Request) :
    Dispatch :=
  match mapRequestToCommand req with
  | .ok none => .done nextExtranonce1 state (buildErrorResponse req.id (-32601) "Method not found")
  | .error msg => .done nextExtranonce1 state (buildSubmitReject req.id msg)
  | .ok (some (.configure extensions versionRolling)) =>
    let negotiated := versionRolling.bind negotiateVersionRolling
    .done nextExtranonce1 { state with versionRolling := negotiated }
      (buildConfigureResponse req.id extensions negotiated)
  | .ok (some .subscribe) =>
    -- `fetch_add` returns the counter as it was and wraps
    let en1Hex := lowerHex08 nextExtranonce1
    .done (nextExtranonce1 + 1)
      { state with subscribed := true, extranonce1 := en1Hex, extranonce2Size := 4 }
      (buildSubscribeResponse req.id en1Hex)
  | .ok (some (.authorize username _)) => .onAuthorize req.id username
  | .ok (some (.submitShare username jobId extraNonce2 ntime nonce versionBits)) =>
    match state.authorizedWorker with
    | none => .done nextExtranonce1 state (buildSubmitReject req.id "worker not authorized")
    | some worker =>
      if worker.id ≠ username then
        .done nextExtranonce1 state (buildSubmitReject req.id "username mismatch")
      else if versionBits.isSome ∧ state.versionRolling.isNone then
        .done nextExtranonce1 state (buildSubmitReject req.id "version rolling not negotiated")
      else .onSubmit req.id
        (sessionShare state worker jobId extraNonce2 ntime nonce versionBits)

/-- The rest of `dispatch_request` behind `on_authorize`: state, job to notify, response. -/
def finishAuthorize (state : SessionState) (id : Option Value) (username : String) :
    Except String (Option Job) → SessionState × Option Job × Sv1Response
  | .ok maybeJob =>
    ({ state with authorizedWorker := some (WorkerIdentity.new username) }, maybeJob,
      buildAuthorizeSuccess id)
  | .error msg => (state, none, buildErrorResponse id (-1) msg)

/-- The rest of `dispatch_request` behind `on_submit`. -/
def finishSubmit (id : Option Value) (result : ShareResult) : Sv1Response :=
  if result.isAccepted then buildSubmitSuccess id
  else buildSubmitReject id (result.rejectReason.getD "rejected")

/-! ## What a request leads to -/

/-- A submitted share is one of the session: an authorized worker's, with the session's
extranonces. -/
theorem eq_of_dispatch_onSubmit {next : UInt32} {state : SessionState} {req : Sv1Request}
    {share : ShareSubmission} (h : (dispatchRequest next state req).submitted = some share) :
    ∃ worker jobId extraNonce2 ntime nonce versionBits,
      state.authorizedWorker = some worker ∧
      mapRequestToCommand req =
        .ok (some (.submitShare worker.id jobId extraNonce2 ntime nonce versionBits)) ∧
      share = sessionShare state worker jobId extraNonce2 ntime nonce versionBits := by
  rw [dispatchRequest] at h
  split at h
  · cases h
  · cases h
  · cases h
  · cases h
  · cases h
  · next username jobId extraNonce2 ntime nonce versionBits hcmd =>
    split at h
    · cases h
    · next worker hworker =>
      split at h
      · cases h
      · next husername =>
        split at h
        · cases h
        · cases h
          refine ⟨worker, jobId, extraNonce2, ntime, nonce, versionBits, hworker, ?_, rfl⟩
          rw [hcmd, Decidable.not_not.mp husername]

/-- A `mining.subscribe` issues the counter's value. -/
theorem dispatchRequest_of_subscribe (next : UInt32) (state : SessionState) {req : Sv1Request}
    (h : req.method = "mining.subscribe") :
    dispatchRequest next state req =
      .done (next + 1)
        { state with subscribed := true, extranonce1 := lowerHex08 next, extranonce2Size := 4 }
        (buildSubscribeResponse req.id (lowerHex08 next)) := by
  have hcmd : mapRequestToCommand req = .ok (some .subscribe) := by
    simp [mapRequestToCommand, h]
  rw [dispatchRequest, hcmd]

/-- A request that is answered at once changes the version rolling at most, but for a
`mining.subscribe`, which issues an extranonce. -/
theorem dispatchRequest_eq_done {next next' : UInt32} {state state' : SessionState}
    {req : Sv1Request} {response : Sv1Response}
    (h : dispatchRequest next state req = .done next' state' response) :
    (next' = next ∧ ∃ negotiated, state' = { state with versionRolling := negotiated }) ∨
    (req.method = "mining.subscribe" ∧ next' = next + 1 ∧ state' =
      { state with subscribed := true, extranonce1 := lowerHex08 next, extranonce2Size := 4 }) := by
  rw [dispatchRequest] at h
  split at h
  · cases h; exact .inl ⟨rfl, _, rfl⟩
  · cases h; exact .inl ⟨rfl, _, rfl⟩
  · cases h; exact .inl ⟨rfl, _, rfl⟩
  · next hcmd => cases h; exact .inr ⟨mapRequestToCommand_eq_ok hcmd, rfl, rfl⟩
  · cases h
  · split at h
    · cases h; exact .inl ⟨rfl, _, rfl⟩
    · split at h
      · cases h; exact .inl ⟨rfl, _, rfl⟩
      · split at h
        · cases h; exact .inl ⟨rfl, _, rfl⟩
        · cases h

/-- No other request touches the extranonces. -/
theorem dispatchRequest_of_not_subscribe {next next' : UInt32} {state state' : SessionState}
    {req : Sv1Request} {response : Sv1Response} (hreq : req.method ≠ "mining.subscribe")
    (h : dispatchRequest next state req = .done next' state' response) :
    next' = next ∧ state'.extranonce1 = state.extranonce1 ∧
      state'.extranonce2Size = state.extranonce2Size := by
  obtain ⟨hnext, negotiated, rfl⟩ | ⟨hsubscribe, -⟩ := dispatchRequest_eq_done h
  · exact ⟨hnext, rfl, rfl⟩
  · exact absurd hsubscribe hreq

/-- No request touches the id of the last job notified. -/
theorem lastNotifyJobId_of_dispatch_done {next next' : UInt32} {state state' : SessionState}
    {req : Sv1Request} {response : Sv1Response}
    (h : dispatchRequest next state req = .done next' state' response) :
    state'.lastNotifyJobId = state.lastNotifyJobId := by
  obtain ⟨-, negotiated, rfl⟩ | ⟨-, -, rfl⟩ := dispatchRequest_eq_done h <;> rfl

theorem finishAuthorize_extranonce (state : SessionState) (id : Option Value) (username : String)
    (answer : Except String (Option Job)) :
    (finishAuthorize state id username answer).1.extranonce1 = state.extranonce1 ∧
      (finishAuthorize state id username answer).1.extranonce2Size = state.extranonce2Size := by
  cases answer <;> exact ⟨rfl, rfl⟩

end AzcoinPool
