import AzcoinPool.Core.PoolError
import AzcoinPool.Lib.Hex

/-!
# The configuration

`config.rs`: the sections of the configuration with their defaults, the environment variables that
take precedence over the file, and `load_config`. A variable changes its setting when it is set and
reads as a value of it, and leaves it as it is otherwise (`override`); applying the variables again
changes nothing (`applyEnvOverrides_idem`).
-/

namespace AzcoinPool

variable {vars : String → Option Str}

/-! ## The sections -/

inductive JobSourceMode where
  | rpc
  | api
  deriving DecidableEq

structure PoolSection where
  name : String := "azcoin-pool"
  initialDifficulty : UInt32 := 1
  payoutScriptPubkeyHex : Str := ⟨"", by decide⟩

structure ApiSection where
  bind : String := "0.0.0.0"
  port : UInt16 := 8080

structure StratumSection where
  bind : String := "0.0.0.0"
  port : UInt16 := 3333

structure DaemonSection where
  url : String := "http://127.0.0.1:8332"
  rpcUser : String := ""
  rpcPassword : String := ""
  jobSourceMode : JobSourceMode := .rpc
  nodeApiToken : String := ""
  shareApiUrl : String := ""

structure PoolConfig where
  pool : PoolSection := {}
  api : ApiSection := {}
  stratum : StratumSection := {}
  daemon : DaemonSection := {}

theorem length_le_of_decode_trim {s : Str} {bytes : Bytes}
    (h : Hex.decode (trim s.text) = .ok bytes) : bytes.length ≤ isizeMax := by
  have hlen := Hex.length_le_of_decode h
  calc bytes.length ≤ (utf8 (trim s.text)).length := by omega
    _ ≤ (utf8 s.text).length := length_utf8_trim_le s.text
    _ ≤ isizeMax := by rw [length_utf8]; exact s.size_le

/-- `payout_script_pubkey_bytes`. -/
def PoolSection.payoutScriptPubkeyBytes (section_ : PoolSection) :
    Except PoolError (Option Slice) :=
  if trim section_.payoutScriptPubkeyHex.text = "" then .ok none
  else
    match h : Hex.decode (trim section_.payoutScriptPubkeyHex.text) with
    | .error e => .error (.config ("invalid pool.payout_script_pubkey_hex: " ++ e.display))
    | .ok bytes => .ok (some ⟨bytes, length_le_of_decode_trim h⟩)

/-- The script is read just when its text is empty or decodes. -/
theorem PoolSection.payoutScriptPubkeyBytes_isOk (section_ : PoolSection) :
    section_.payoutScriptPubkeyBytes.isOk ↔
      trim section_.payoutScriptPubkeyHex.text = "" ∨
        (Hex.decode (trim section_.payoutScriptPubkeyHex.text)).isOk := by
  unfold payoutScriptPubkeyBytes
  split
  · next hempty => exact iff_of_true rfl (.inl hempty)
  · next hne =>
    split
    · next e hdecode => exact iff_of_false nofun fun h => h.elim hne (by rw [hdecode]; nofun)
    · next bytes hdecode => exact iff_of_true rfl (.inr (by rw [hdecode]; rfl))

/-- A script that is read is none for an empty text, and else the bytes of the text. -/
theorem payoutScriptPubkeyBytes_eq_ok {section_ : PoolSection} {script? : Option Slice}
    (h : section_.payoutScriptPubkeyBytes = .ok script?) :
    (script? = none ↔ trim section_.payoutScriptPubkeyHex.text = "") ∧
      ∀ script ∈ script?, Hex.decode (trim section_.payoutScriptPubkeyHex.text) =
        .ok script.bytes := by
  unfold PoolSection.payoutScriptPubkeyBytes at h
  split at h
  · next hempty =>
    cases h
    simp [hempty]
  · next hne =>
    split at h
    · cases h
    · next bytes hdecode =>
      cases h
      simp [hne, hdecode]

/-! ## Environment variables -/

/-- The digits of a decimal number below a bound, with the overflow check of each step. -/
def digits10 (bound acc : Nat) : Bytes → Option Nat
  | [] => some acc
  | b :: bs =>
    if 48 ≤ b ∧ b ≤ 57 then
      let next := acc * 10 + (b.toNat - 48)
      if next < bound then digits10 bound next bs else none
    else none

/-- `str::parse` of an unsigned integer below the bound: an optional `+`, then one digit or more. -/
def parseDecimal (bound : Nat) (s : String) : Option Nat :=
  match utf8 s with
  | [] => none
  | b :: bs =>
    let digits := if b = 43 then bs else b :: bs
    if digits.isEmpty then none else digits10 bound 0 digits

/-- `parse_job_source_mode`. No other letter than an ASCII one has one of these in lower case. -/
def parseJobSourceMode (s : String) : Option JobSourceMode :=
  match (trim s).toLower with
  | "rpc" => some .rpc
  | "api" => some .api
  | _ => none

/-- `str::trim` as an allocation of its own. -/
def trimStr (s : Str) : Str where
  text := trim s.text
  size_le := by
    rw [← length_utf8]
    exact (length_utf8_trim_le s.text).trans (by rw [length_utf8]; exact s.size_le)

/-- A setting with its variable: the variable's value where it is set and reads as one. -/
def override {α : Type} (read : Str → Option α) (var : Option Str) (setting : α) : α :=
  (var.bind read).getD setting

/-- What the variables are read as. -/
def readTrimmed (s : Str) : Option String := some (trimStr s).text

def readText (s : Str) : Option String := some s.text

def readU32 (s : Str) : Option UInt32 := (parseDecimal (2 ^ 32) (trim s.text)).map UInt32.ofNat

def readU16 (s : Str) : Option UInt16 := (parseDecimal (2 ^ 16) (trim s.text)).map UInt16.ofNat

/-- `apply_env_overrides`. -/
def applyEnvOverrides (vars : String → Option Str) (config : PoolConfig) : PoolConfig where
  pool := { config.pool with
    initialDifficulty :=
      override readU32 (vars "POOL__INITIAL_DIFFICULTY") config.pool.initialDifficulty
    payoutScriptPubkeyHex := override (fun s => some (trimStr s))
      (vars "POOL__PAYOUT_SCRIPT_PUBKEY_HEX") config.pool.payoutScriptPubkeyHex }
  daemon := {
    jobSourceMode := override (fun s => parseJobSourceMode s.text) (vars "DAEMON__JOB_SOURCE_MODE")
      config.daemon.jobSourceMode
    url := override readTrimmed (vars "DAEMON__URL") config.daemon.url
    rpcUser := override readText (vars "DAEMON__RPC_USER") config.daemon.rpcUser
    rpcPassword := override readText (vars "DAEMON__RPC_PASSWORD") config.daemon.rpcPassword
    nodeApiToken := override readText (vars "DAEMON__NODE_API_TOKEN")
      (override readText (vars "AZ_NODE_API_TOKEN") config.daemon.nodeApiToken)
    shareApiUrl := override readTrimmed (vars "DAEMON__SHARE_API_URL") config.daemon.shareApiUrl }
  api := {
    bind := override readTrimmed (vars "API__BIND") config.api.bind
    port := override readU16 (vars "API__PORT") config.api.port }
  stratum := {
    bind := override readTrimmed (vars "STRATUM__BIND") config.stratum.bind
    port := override readU16 (vars "STRATUM__PORT") config.stratum.port }

@[simp] theorem override_override {α : Type} (read : Str → Option α) (var : Option Str)
    (setting : α) : override read var (override read var setting) = override read var setting := by
  unfold override
  cases var.bind read <;> rfl

/-- Of two variables of one setting, the later one decides. -/
theorem override_comm_of_later {α : Type} (read : Str → Option α) (later earlier : Option Str)
    (setting : α) :
    override read later (override read earlier (override read later
      (override read earlier setting))) = override read later (override read earlier setting) := by
  unfold override
  cases later.bind read <;> cases earlier.bind read <;> rfl

theorem applyEnvOverrides_idem (vars : String → Option Str) (config : PoolConfig) :
    applyEnvOverrides vars (applyEnvOverrides vars config) = applyEnvOverrides vars config := by
  simp only [applyEnvOverrides, override_override, override_comm_of_later]

/-- The job source of the variable, if it names one, and else of the file. -/
def configuredMode (vars : String → Option Str) (config : PoolConfig) : JobSourceMode :=
  ((vars "DAEMON__JOB_SOURCE_MODE").bind fun s => parseJobSourceMode s.text).getD
    config.daemon.jobSourceMode

/-- The payout script of the variable, if it is set, and else of the file. -/
def configuredScript (vars : String → Option Str) (config : PoolConfig) : String :=
  trim ((vars "POOL__PAYOUT_SCRIPT_PUBKEY_HEX").getD config.pool.payoutScriptPubkeyHex).text

theorem trim_payoutScriptPubkeyHex (config : PoolConfig) :
    trim (applyEnvOverrides vars config).pool.payoutScriptPubkeyHex.text =
      configuredScript vars config := by
  simp only [applyEnvOverrides, override, configuredScript]
  cases vars "POOL__PAYOUT_SCRIPT_PUBKEY_HEX" with
  | none => rfl
  | some s => exact trim_trim s.text

/-! ## Loading -/

/-- The configuration of the file, given its content, if it can be read, and what `toml::from_str`
makes of it. -/
def readConfig (parseToml : String → Except String PoolConfig) :
    Option String → Except PoolError PoolConfig
  | some s => (parseToml s).mapError .config
  | none => .ok {}

/-- `load_config`. -/
def loadConfig (parseToml : String → Except String PoolConfig) (file : Option String)
    (vars : String → Option Str) : Except PoolError PoolConfig := do
  let config ← readConfig parseToml file
  let config := applyEnvOverrides vars config
  let _ ← config.pool.payoutScriptPubkeyBytes
  return config

end AzcoinPool
