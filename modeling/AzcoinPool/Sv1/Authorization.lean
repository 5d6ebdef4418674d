import AzcoinPool.Sv1.Connection

/-!
# The authorized worker of a connection

The worker in the state of a connection is that of the latest `mining.authorize` the handler
accepted (`run_authorizedWorker`), whatever came in between: other requests, rejected
authorizations, requests that do not parse. A share that is passed to `on_submit` is therefore
attributed to the user name that was authorized last, and the submission names it too
(`attributed_of_submitted`).
-/

namespace AzcoinPool

/-- The request of an input. -/
def ConnectionInput.request? : ConnectionInput → Option Sv1Request
  | request req _ _ => some req
  | notified _ => none

/-- A connection without an extranonce1 has had no request that subscribes. -/
theorem not_subscribe_of_latestIssued {inputs : List ConnectionInput}
    (hlatest : ¬(latestIssued inputs).isSome) :
    ∀ req ∈ inputs.filterMap ConnectionInput.request?, req.method ≠ "mining.subscribe" := by
  intro req hreq hmethod
  obtain ⟨input, hinput, hrequest⟩ := List.mem_filterMap.mp hreq
  refine hlatest ((latestIssued_isSome inputs).mpr ⟨input, hinput, ?_⟩)
  cases input with
  | request => cases hrequest; exact hmethod
  | notified => cases hrequest

/-- The user name that a `mining.authorize` or a `mining.submit` carries, its first parameter. -/
def Sv1Request.username (req : Sv1Request) : Option String :=
  (req.params.bind Value.asArray).bind fun params => params[0]?.bind Value.asStr

/-- The user name of a `mining.authorize` that the handler accepts. -/
def ConnectionInput.acceptedUsername : ConnectionInput → Option String
  | request req _ (.ok _) => if req.method = "mining.authorize" then req.username else none
  | _ => none

/-- The user name of the latest `mining.authorize` that was accepted. -/
def latestAccepted (inputs : List ConnectionInput) : Option String :=
  (inputs.filterMap ConnectionInput.acceptedUsername).getLast?

theorem latestAccepted_append_singleton (inputs : List ConnectionInput) (i : ConnectionInput) :
    latestAccepted (inputs ++ [i]) = i.acceptedUsername.or (latestAccepted inputs) := by
  unfold latestAccepted
  rw [List.filterMap_append, List.getLast?_append]
  congr 1
  cases h : i.acceptedUsername <;> simp [h]

/-- An authorize command comes from the user name of a `mining.authorize`. -/
theorem mapRequestToCommand_eq_authorize {req : Sv1Request} {username : String} :
    (∃ password, mapRequestToCommand req = .ok (some (.authorize username password))) ↔
      req.method = "mining.authorize" ∧ req.username = some username := by
  have hmap (hmethod : req.method = "mining.authorize") :
      mapRequestToCommand req = (mapAuthorizeParams req).map some := by
    simp only [mapRequestToCommand, hmethod]
  rw [Sv1Request.username]
  constructor
  · rintro ⟨password, h⟩
    have hmethod : req.method = "mining.authorize" := mapRequestToCommand_eq_ok h
    have hauthorize : mapAuthorizeParams req = .ok (.authorize username password) := by
      rw [hmap hmethod] at h
      cases hparams : mapAuthorizeParams req with
      | error e => rw [hparams] at h; cases h
      | ok cmd => rw [hparams] at h; cases h; rfl
    obtain ⟨params, hparams, hauthorize⟩ := Except.bind_eq_ok.mp hauthorize
    obtain ⟨name, hname, hauthorize⟩ := Except.bind_eq_ok.mp hauthorize
    cases hauthorize
    refine ⟨hmethod, ?_⟩
    rw [okOr_eq_ok.mp hparams, Option.bind_some, ← List.head?_eq_getElem?]
    exact okOr_eq_ok.mp hname
  · rintro ⟨hmethod, h⟩
    obtain ⟨params, hparams, hname⟩ := Option.bind_eq_some_iff.mp h
    rw [← List.head?_eq_getElem?] at hname
    have hauthorize : mapAuthorizeParams req =
        .ok (.authorize username ((params[1]?.bind Value.asStr).getD "")) :=
      Except.bind_eq_ok.mpr ⟨params, okOr_eq_ok.mpr hparams,
        Except.bind_eq_ok.mpr ⟨username, okOr_eq_ok.mpr hname, rfl⟩⟩
    exact ⟨_, by rw [hmap hmethod, hauthorize]; rfl⟩

/-- Each request gets to `on_authorize` just when it is a `mining.authorize` with a user name. -/
theorem dispatchRequest_eq_onAuthorize {next : UInt32} {state : SessionState} {req : Sv1Request}
    {id : Option Value} {username : String} :
    dispatchRequest next state req = .onAuthorize id username ↔
      id = req.id ∧ req.method = "mining.authorize" ∧ req.username = some username := by
  rw [← mapRequestToCommand_eq_authorize]
  constructor
  · intro h
    unfold dispatchRequest at h
    split at h
    · cases h
    · cases h
    · cases h
    · cases h
    · next username' password hcmd => cases h; exact ⟨rfl, password, hcmd⟩
    · split at h
      · cases h
      · split at h
        · cases h
        · split at h <;> cases h
  · rintro ⟨rfl, password, hcmd⟩
    rw [dispatchRequest, hcmd]

/-- A request that does not get to `on_authorize` accepts no user name. -/
theorem acceptedUsername_eq_none {next : UInt32} {state : SessionState} {req : Sv1Request}
    (answer : Except String (Option Job))
    (h : ∀ id username, dispatchRequest next state req ≠ .onAuthorize id username) :
    (ConnectionInput.request req next answer).acceptedUsername = none := by
  cases answer with
  | error msg => rfl
  | ok maybeJob =>
    rw [ConnectionInput.acceptedUsername, Option.eq_none_iff_forall_ne_some]
    intro username hname
    split at hname
    · next hmethod =>
      exact h req.id username (dispatchRequest_eq_onAuthorize.mpr ⟨rfl, hmethod, hname⟩)
    · cases hname

/-- One input keeps the worker that of the latest accepted `mining.authorize`. -/
theorem SessionState.input_authorizedWorker (state : SessionState) (i : ConnectionInput) :
    (state.input i).authorizedWorker =
      (i.acceptedUsername.map WorkerIdentity.new).or state.authorizedWorker := by
  cases i with
  | notified jobId => rfl
  | request req next answer =>
    simp only [SessionState.input]
    split
    · next hdone =>
      rw [acceptedUsername_eq_none answer (by rw [hdone]; intro id username h; cases h)]
      rcases dispatchRequest_eq_done hdone with ⟨-, negotiated, rfl⟩ | ⟨-, -, rfl⟩ <;> rfl
    · next id username hauth =>
      obtain ⟨-, hmethod, hname⟩ := dispatchRequest_eq_onAuthorize.mp hauth
      cases answer with
      | error msg => rfl
      | ok maybeJob => simp [finishAuthorize, ConnectionInput.acceptedUsername, hmethod, hname]
    · next hsubmit =>
      rw [acceptedUsername_eq_none answer (by rw [hsubmit]; intro id username h; cases h)]
      rfl

/-- Behind any inputs the authorized worker is that of the latest accepted `mining.authorize`. -/
theorem run_authorizedWorker (inputs : List ConnectionInput) :
    (SessionState.run inputs).authorizedWorker =
      (latestAccepted inputs).map WorkerIdentity.new := by
  induction inputs using List.reverseRecOn with
  | nil => rfl
  | append_singleton inputs i ih =>
    rw [SessionState.run_append_singleton, SessionState.input_authorizedWorker, ih,
      latestAccepted_append_singleton]
    cases i.acceptedUsername <;> rfl

/-! ## Attribution -/

/-- The share of a submission behind the inputs is attributed to the user name that the submission
carries and that was accepted last. -/
structure Attributed (inputs : List ConnectionInput) (req : Sv1Request) (share : ShareSubmission) :
    Prop where
  method : req.method = "mining.submit"
  username : ∃ u, latestAccepted inputs = some u ∧ req.username = some u ∧
    share.worker = WorkerIdentity.new u

theorem username_of_mapRequestToCommand {req : Sv1Request} {username jobId : String}
    {extraNonce2 : Bytes} {ntime nonce : UInt32} {versionBits : Option UInt32}
    (h : mapRequestToCommand req =
      .ok (some (.submitShare username jobId extraNonce2 ntime nonce versionBits))) :
    req.username = some username := by
  have hmap := mapSubmitParams_of_mapRequestToCommand h
  unfold mapSubmitParams at hmap
  obtain ⟨params, hparams, hmap⟩ := Except.bind_eq_ok.mp hmap
  split at hmap
  · cases hmap
  · obtain ⟨user, huser, hmap⟩ := Except.bind_eq_ok.mp hmap
    iterate 8 obtain ⟨_, _, hmap⟩ := Except.bind_eq_ok.mp hmap
    cases hmap
    rw [Sv1Request.username, okOr_eq_ok.mp hparams]
    exact okOr_eq_ok.mp huser

/-- A share that is passed to `on_submit` is attributed to the worker authorized last. -/
theorem attributed_of_submitted {inputs : List ConnectionInput} {next : UInt32} {req : Sv1Request}
    {share : ShareSubmission}
    (h : (dispatchRequest next (SessionState.run inputs) req).submitted = some share) :
    Attributed inputs req share := by
  obtain ⟨worker, jobId, en2, ntime, nonce, bits, hworker, hcmd, rfl⟩ := eq_of_dispatch_onSubmit h
  rw [run_authorizedWorker] at hworker
  obtain ⟨u, hu, rfl⟩ := Option.map_eq_some_iff.mp hworker
  rw [WorkerIdentity.id_new] at hcmd
  exact ⟨mapRequestToCommand_eq_ok hcmd, u, hu, username_of_mapRequestToCommand hcmd, rfl⟩

end AzcoinPool
