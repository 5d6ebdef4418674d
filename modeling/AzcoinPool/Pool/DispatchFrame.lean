import AzcoinPool.Pool.SessionLoop

/-!
# What a request may change

`DispatchEffect` lists what `dispatch_request` can do to a session: leave it, or answer a configure,
a subscribe or an authorize with success and write the fields of that request
(`dispatchEffect_dispatchWith`). An error response therefore leaves the whole state
(`dispatchWith_frame`), and a worker that is authorized stays so, whatever is received afterwards
(`isSome_authorizedWorker_handleSv1Session`).
-/

namespace AzcoinPool

/-- What a request does: the job to notify, the response, and the state behind it. -/
inductive DispatchEffect (req : Sv1Request) (state : SessionState) :
    Option Job × Sv1Response × SessionState → Prop where
  /-- Nothing is written: the request is rejected, or a share is answered. -/
  | unchanged (response : Sv1Response)
      (h : response.error.isSome = true ∨ req.method = "mining.submit") :
    DispatchEffect req state (none, response, state)
  | configured (h : req.method = "mining.configure") (extensions : List String)
      (negotiated : Option Sv1VersionRollingConfig) :
    DispatchEffect req state (none, buildConfigureResponse req.id extensions negotiated,
      { state with versionRolling := negotiated })
  | subscribed (h : req.method = "mining.subscribe") (en1Hex : String) :
    DispatchEffect req state (none, buildSubscribeResponse req.id en1Hex,
      { state with subscribed := true, extranonce1 := en1Hex, extranonce2Size := 4 })
  | authorized (h : req.method = "mining.authorize") (job? : Option Job)
      (worker : WorkerIdentity) :
    DispatchEffect req state (job?, buildAuthorizeSuccess req.id,
      { state with authorizedWorker := some worker })

/-- Every request, with whatever the handler answers, has one of the effects. -/
theorem dispatchEffect_dispatchWith (next : UInt32) (state : SessionState) (req : Sv1Request)
    (answers : HandlerAnswers) :
    DispatchEffect req state (dispatchWith next state req answers) := by
  rw [dispatchWith, dispatchRequest]
  cases hcmd : mapRequestToCommand req with
  | error msg => exact .unchanged _ (.inl rfl)
  | ok cmd? =>
    cases cmd? with
    | none => exact .unchanged _ (.inl rfl)
    | some cmd =>
      have hmethod := mapRequestToCommand_eq_ok hcmd
      cases cmd with
      | configure extensions versionRolling => exact .configured hmethod _ _
      | subscribe => exact .subscribed hmethod _
      | authorize username password =>
        dsimp only
        cases answers.onAuthorize username with
        | ok job? => exact .authorized hmethod job? _
        | error msg => exact .unchanged _ (.inl rfl)
      | submitShare username jobId extraNonce2 ntime nonce versionBits =>
        dsimp only
        cases state.authorizedWorker with
        | none => exact .unchanged _ (.inl rfl)
        | some worker =>
          dsimp only
          split
          · next hdone =>
            -- a submission that the handler does not see is rejected
            split at hdone
            · cases hdone
              exact .unchanged _ (.inl rfl)
            · split at hdone
              · cases hdone
                exact .unchanged _ (.inl rfl)
              · cases hdone
          · next hauthorize =>
            split at hauthorize
            · cases hauthorize
            · split at hauthorize <;> cases hauthorize
          · exact .unchanged _ (.inr hmethod)

/-- A response with an error leaves the session as it is and has no job to notify, a
`mining.submit` leaves the session as it is, and each of the other requests writes its own fields
only. -/
theorem dispatchWith_frame (next : UInt32) (state : SessionState) (req : Sv1Request)
    (answers : HandlerAnswers) :
    let job? := (dispatchWith next state req answers).1
    let response := (dispatchWith next state req answers).2.1
    let state' := (dispatchWith next state req answers).2.2
    (response.error.isSome = true → state' = state ∧ job? = none) ∧
    (req.method = "mining.submit" → state' = state) ∧
    (req.method = "mining.configure" →
      state' = { state with versionRolling := state'.versionRolling }) ∧
    (req.method = "mining.subscribe" →
      state' = { state with
        subscribed := state'.subscribed
        extranonce1 := state'.extranonce1
        extranonce2Size := state'.extranonce2Size }) ∧
    (req.method = "mining.authorize" →
      state' = { state with authorizedWorker := state'.authorizedWorker }) := by
  have heffect := dispatchEffect_dispatchWith next state req answers
  generalize dispatchWith next state req answers = out at heffect ⊢
  cases heffect with
  | unchanged response h => exact ⟨fun _ => ⟨rfl, rfl⟩, fun _ => rfl, fun _ => rfl, fun _ => rfl,
      fun _ => rfl⟩
  | configured h extensions negotiated =>
    refine ⟨fun herror => ?_, fun hm => ?_, fun _ => rfl, fun hm => ?_, fun hm => ?_⟩
    · cases herror
    all_goals exact absurd (h.symm.trans hm) (by decide)
  | subscribed h en1Hex =>
    refine ⟨fun herror => ?_, fun hm => ?_, fun hm => ?_, fun _ => rfl, fun hm => ?_⟩
    · cases herror
    all_goals exact absurd (h.symm.trans hm) (by decide)
  | authorized h job? worker =>
    refine ⟨fun herror => ?_, fun hm => ?_, fun hm => ?_, fun hm => ?_, fun _ => rfl⟩
    · cases herror
    all_goals exact absurd (h.symm.trans hm) (by decide)

/-! ## Over a session -/

/-- An authorized worker is not lost in a request. -/
theorem DispatchEffect.isSome_authorizedWorker {req : Sv1Request} {state : SessionState}
    {out : Option Job × Sv1Response × SessionState} (h : DispatchEffect req state out)
    (hworker : state.authorizedWorker.isSome = true) :
    out.2.2.authorizedWorker.isSome = true := by
  cases h with
  | authorized => rfl
  | _ => exact hworker

/-- Nor in a turn of the loop. -/
theorem isSome_authorizedWorker_turn (parseJson : String → Option Sv1Request) (s : LoopState)
    (i : LoopInput) (h : s.state.authorizedWorker.isSome = true) :
    (s.turn parseJson i).state.authorizedWorker.isSome = true := by
  cases i with
  | line text next answers =>
    rw [LoopState.turn]
    dsimp only
    split
    · exact h
    · split
      · exact h
      · next req _ =>
        have heffect := dispatchEffect_dispatchWith next s.state req answers
        generalize dispatchWith next s.state req answers = out at heffect ⊢
        obtain ⟨job?, response, state'⟩ := out
        have hworker := heffect.isSome_authorizedWorker h
        cases job? with
        | none => exact hworker
        | some job => exact hworker
  | job job =>
    rw [LoopState.turn]
    split
    · exact h
    · split
      · exact h
      · exact h
  | lagged skipped => exact h

/-- Once a worker is authorized, the session has one, whatever it reads and hears afterwards. -/
theorem isSome_authorizedWorker_handleSv1Session (parseJson : String → Option Sv1Request)
    (inputs more : List LoopInput)
    (h : (handleSv1Session parseJson inputs).state.authorizedWorker.isSome = true) :
    (handleSv1Session parseJson (inputs ++ more)).state.authorizedWorker.isSome = true := by
  induction more using List.reverseRecOn with
  | nil => rwa [List.append_nil]
  | append_singleton more i ih =>
    rw [← List.append_assoc, handleSv1Session_append_singleton]
    exact isSome_authorizedWorker_turn parseJson _ i ih

end AzcoinPool
