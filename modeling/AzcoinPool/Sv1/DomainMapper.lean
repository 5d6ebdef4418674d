import AzcoinPool.Lib.Hex
import AzcoinPool.Sv1.Messages

/-!
# From requests to commands

`domain_mapper.rs`: the parsers of the four methods' parameters, with the texts of their errors. An
unknown method is `.ok none`.
-/

namespace AzcoinPool

/-- `ok_or`. -/
def okOr {α : Type} (o : Option α) (e : String) : Except String α :=
  match o with
  | some a => .ok a
  | none => .error e

theorem okOr_eq_ok {α : Type} {o : Option α} {e : String} {a : α} :
    okOr o e = .ok a ↔ o = some a := by
  cases o <;> simp [okOr]

/-- A hexadecimal `u32` of eight characters. -/
def parseHexU32 (value : Value) (label : String) : Except String UInt32 := do
  let hex ← okOr value.asStr (label ++ " must be 8-char hex string")
  if hex.utf8ByteSize ≠ 8 then .error (label ++ " must be 8-char hex string")
  else okOr (u32FromStrRadix16 hex) (label ++ " invalid hex")

/-- The requested mask, all ones when there is none. -/
def versionRollingMask (options : Option (List (String × Value))) : Except String UInt32 :=
  match options.bind (memberGet · "version-rolling.mask") with
  | some value => parseHexU32 value "mining.configure version-rolling.mask"
  | none => .ok 0xffffffff

/-- The requested minimal bit count, zero when there is none. -/
def versionRollingMinBitCount (options : Option (List (String × Value))) : Except String UInt32 :=
  match options.bind (memberGet · "version-rolling.min-bit-count") with
  | some value => do
    let count ← okOr value.asU64 "mining.configure version-rolling.min-bit-count must be integer"
    if count.toNat < 2 ^ 32 then .ok count.toUInt32
    else .error "mining.configure version-rolling.min-bit-count out of range"
  | none => .ok 0

def parseVersionRollingConfig (options : Option (List (String × Value))) :
    Except String Sv1VersionRollingConfig := do
  let mask ← versionRollingMask options
  let minBitCount ← versionRollingMinBitCount options
  return ⟨mask, minBitCount⟩

/-- The parameters of `mining.configure`, which may be missing. -/
def configureParams (req : Sv1Request) : Except String (Option (List Value)) :=
  match req.params with
  | none => .ok none
  | some params => (okOr params.asArray "mining.configure requires params array").map some

/-- The names of the extensions, the first parameter of `mining.configure`. -/
def configureExtensions (params : Option (List Value)) : Except String (List String) :=
  match params.bind (·.head?) with
  | none => .ok []
  | some value => do
    let items ← okOr value.asArray "mining.configure param 0 (extensions) must be array"
    items.mapM fun item => okOr item.asStr "mining.configure extensions must be strings"

/-- The version-rolling configuration, read only when the extension is requested. -/
def configureVersionRolling (extensions : List String)
    (options : Option (List (String × Value))) : Except String (Option Sv1VersionRollingConfig) :=
  if extensions.any (· = "version-rolling") then (parseVersionRollingConfig options).map some
  else .ok none

def mapConfigureParams (req : Sv1Request) : Except String Sv1DomainCommand := do
  let params ← configureParams req
  let extensions ← configureExtensions params
  let options := (params.bind (·[1]?)).bind Value.asObject
  let versionRolling ← configureVersionRolling extensions options
  return .configure extensions versionRolling

/-- A string parameter of `mining.submit`. -/
def submitParam (params : List Value) (i : Nat) (e : String) : Except String String :=
  okOr (params[i]?.bind Value.asStr) e

/-- An eight-character hexadecimal parameter of `mining.submit`. -/
def submitHexU32 (hex label : String) : Except String UInt32 :=
  if hex.utf8ByteSize ≠ 8 then .error (label ++ " must be 8 hex chars")
  else okOr (u32FromStrRadix16 hex) (label ++ " invalid hex")

/-- The optional sixth parameter of `mining.submit`. -/
def submitVersionBits (params : List Value) : Except String (Option UInt32) :=
  match params[5]? with
  | some value => (parseHexU32 value "mining.submit param 5 (version_bits)").map some
  | none => .ok none

def mapSubmitParams (req : Sv1Request) : Except String Sv1DomainCommand := do
  let params ← okOr (req.params.bind Value.asArray) "mining.submit requires params array"
  if params.length < 5 then
    .error ("mining.submit requires 5 params, got " ++ params.length.repr)
  else
    let username ← submitParam params 0 "mining.submit param 0 (username) must be string"
    let jobId ← submitParam params 1 "mining.submit param 1 (job_id) must be string"
    let extraNonce2Hex ←
      submitParam params 2 "mining.submit param 2 (extra_nonce2) must be hex string"
    let ntimeHex ← submitParam params 3 "mining.submit param 3 (ntime) must be hex string"
    let nonceHex ← submitParam params 4 "mining.submit param 4 (nonce) must be hex string"
    let extraNonce2 ← okOr (Hex.decode extraNonce2Hex).toOption
      "mining.submit param 2 (extra_nonce2) invalid hex"
    let ntime ← submitHexU32 ntimeHex "mining.submit param 3 (ntime)"
    let nonce ← submitHexU32 nonceHex "mining.submit param 4 (nonce)"
    let versionBits ← submitVersionBits params
    return .submitShare username jobId extraNonce2 ntime nonce versionBits

def mapAuthorizeParams (req : Sv1Request) : Except String Sv1DomainCommand := do
  let params ← okOr (req.params.bind Value.asArray) "mining.authorize requires params array"
  let username ← okOr (params.head?.bind Value.asStr) "mining.authorize requires username"
  return .authorize username ((params[1]?.bind Value.asStr).getD "")

def mapRequestToCommand (req : Sv1Request) : Except String (Option Sv1DomainCommand) :=
  match req.method with
  | "mining.configure" => (mapConfigureParams req).map some
  | "mining.subscribe" => .ok (some .subscribe)
  | "mining.authorize" => (mapAuthorizeParams req).map some
  | "mining.submit" => (mapSubmitParams req).map some
  | _ => .ok none

/-! ## Which command a request becomes -/

theorem mapConfigureParams_eq_ok {req : Sv1Request} {cmd : Sv1DomainCommand}
    (h : mapConfigureParams req = .ok cmd) :
    ∃ extensions versionRolling, cmd = .configure extensions versionRolling := by
  rw [mapConfigureParams] at h
  obtain ⟨_, _, h⟩ := Except.bind_eq_ok.mp h
  obtain ⟨_, _, h⟩ := Except.bind_eq_ok.mp h
  obtain ⟨_, _, h⟩ := Except.bind_eq_ok.mp h
  cases h
  exact ⟨_, _, rfl⟩

theorem mapAuthorizeParams_eq_ok {req : Sv1Request} {cmd : Sv1DomainCommand}
    (h : mapAuthorizeParams req = .ok cmd) :
    ∃ username password, cmd = .authorize username password := by
  rw [mapAuthorizeParams] at h
  obtain ⟨_, _, h⟩ := Except.bind_eq_ok.mp h
  obtain ⟨_, _, h⟩ := Except.bind_eq_ok.mp h
  cases h
  exact ⟨_, _, rfl⟩

theorem mapSubmitParams_eq_ok {req : Sv1Request} {cmd : Sv1DomainCommand}
    (h : mapSubmitParams req = .ok cmd) :
    ∃ username jobId extraNonce2 ntime nonce versionBits,
      cmd = .submitShare username jobId extraNonce2 ntime nonce versionBits := by
  rw [mapSubmitParams] at h
  obtain ⟨params, _, h⟩ := Except.bind_eq_ok.mp h
  split at h
  · cases h
  · iterate 9 obtain ⟨_, _, h⟩ := Except.bind_eq_ok.mp h
    cases h
    exact ⟨_, _, _, _, _, _, rfl⟩

/-- Each method is mapped to its own command. -/
theorem mapRequestToCommand_eq_ok {req : Sv1Request} {cmd : Sv1DomainCommand}
    (h : mapRequestToCommand req = .ok (some cmd)) :
    match cmd with
    | .configure _ _ => req.method = "mining.configure"
    | .subscribe => req.method = "mining.subscribe"
    | .authorize _ _ => req.method = "mining.authorize"
    | .submitShare _ _ _ _ _ _ => req.method = "mining.submit" := by
  have hmap {x : Except String Sv1DomainCommand} (hx : x.map some = .ok (some cmd)) :
      x = .ok cmd := by
    cases x with
    | error e => cases hx
    | ok c => cases hx; rfl
  rw [mapRequestToCommand] at h
  split at h
  · next hmethod =>
    obtain ⟨_, _, rfl⟩ := mapConfigureParams_eq_ok (hmap h)
    exact hmethod
  · next hmethod =>
    cases h
    exact hmethod
  · next hmethod =>
    obtain ⟨_, _, rfl⟩ := mapAuthorizeParams_eq_ok (hmap h)
    exact hmethod
  · next hmethod =>
    obtain ⟨_, _, _, _, _, _, rfl⟩ := mapSubmitParams_eq_ok (hmap h)
    exact hmethod
  · cases h

/-- A share command comes from the parameters of a `mining.submit`. -/
theorem mapSubmitParams_of_mapRequestToCommand {req : Sv1Request} {username jobId : String}
    {extraNonce2 : Bytes} {ntime nonce : UInt32} {versionBits : Option UInt32}
    (h : mapRequestToCommand req =
      .ok (some (.submitShare username jobId extraNonce2 ntime nonce versionBits))) :
    mapSubmitParams req =
      .ok (.submitShare username jobId extraNonce2 ntime nonce versionBits) := by
  have hmethod : req.method = "mining.submit" := mapRequestToCommand_eq_ok h
  simp only [mapRequestToCommand, hmethod] at h
  cases hparams : mapSubmitParams req with
  | error e => rw [hparams] at h; cases h
  | ok cmd => rw [hparams] at h; cases h; rfl

end AzcoinPool
