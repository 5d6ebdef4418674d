import AzcoinPool.Core.Config
import AzcoinPool.Pool.JobSources
import AzcoinPool.Pool.PayoutSafety

/-!
# From the configuration to the running pool

`composition.rs` and the start of `main.rs`: the job source and the services of a configuration, and
the pool that runs on them. A configuration whose payout script does not decode is not loaded, so
the error that `build_job_source` drops is never there (`payoutScriptPubkey_of_startup`), and what
`main` logs about block submission is what the job source does. The pool then submits as the
environment and the file say (`submitsAsConfigured_of_runsTo`).
-/

namespace AzcoinPool

variable {bitcoin : BitcoinCrate} {doubleSha256 : Bytes → Bytes32} {env : PoolEnv}
  {parseToml : String → Except String PoolConfig} {file : Option String}
  {vars : String → Option Str} {parseJson : String → Option Sv1Request}

/-! ## The services of a configuration -/

/-- What `current_job` gets from outside, by the configured source. -/
abbrev JobSourceMode.Answer : JobSourceMode → Type
  | .rpc => Except PoolError (Option BlockTemplate)
  | .api => Except PoolError (Option NodeApiTemplate)

/-- `build_job_source`. -/
def buildJobSource (bitcoin : BitcoinCrate) (config : PoolConfig) :
    JobSource config.daemon.jobSourceMode.Answer :=
  match config.daemon.jobSourceMode with
  | .rpc => rpcCurrentJob bitcoin config.pool.payoutScriptPubkeyBytes.toOption.join
  | .api => nodeApiCurrentJob

/-- `build_pool_services`. -/
def buildPoolServices (bitcoin : BitcoinCrate) (doubleSha256 : Bytes → Bytes32)
    (config : PoolConfig) : PoolEnv where
  bitcoin := bitcoin
  doubleSha256 := doubleSha256
  payoutScriptPubkey := config.pool.payoutScriptPubkeyBytes.toOption.join
  initialDifficulty := config.pool.initialDifficulty
  shareSink := trim config.daemon.shareApiUrl ≠ ""

/-- What `main` has built before it starts the poller and the listener. -/
structure Started where
  config : PoolConfig
  env : PoolEnv
  /-- The handler's script, by which `main` logs whether block submission is armed. -/
  payoutScriptPubkey : Option Slice

/-- The start of `main`. -/
def startup (bitcoin : BitcoinCrate) (doubleSha256 : Bytes → Bytes32)
    (parseToml : String → Except String PoolConfig) (file : Option String)
    (vars : String → Option Str) : Except PoolError Started := do
  let config ← loadConfig parseToml file vars
  let env := buildPoolServices bitcoin doubleSha256 config
  let payoutScriptPubkey ← config.pool.payoutScriptPubkeyBytes
  return ⟨config, env, payoutScriptPubkey⟩

/-- The pool that `main` runs. -/
def Started.machine (s : Started) (parseJson : String → Option Sv1Request) :
    Machine Pool (SourceEvent s.config.daemon.jobSourceMode.Answer) :=
  sourceMachine (buildJobSource s.env.bitcoin s.config) s.env parseJson

/-! ## What starts -/

/-- A pool that has started has the configuration of the file with the variables, and the script of
the handler is the one of the job source. -/
theorem payoutScriptPubkey_of_startup {s : Started} {config : PoolConfig}
    (hfile : readConfig parseToml file = .ok config)
    (h : startup bitcoin doubleSha256 parseToml file vars = .ok s) :
    s.config = applyEnvOverrides vars config ∧
      s.env = buildPoolServices bitcoin doubleSha256 s.config ∧
      s.payoutScriptPubkey = s.env.payoutScriptPubkey ∧
      s.config.pool.payoutScriptPubkeyBytes = .ok s.env.payoutScriptPubkey := by
  rw [startup, loadConfig, hfile] at h
  obtain ⟨config', hload, h⟩ := Except.bind_eq_ok.mp h
  obtain ⟨_, ⟨⟩, hload⟩ := Except.bind_eq_ok.mp hload
  obtain ⟨_, -, hload⟩ := Except.bind_eq_ok.mp hload
  obtain ⟨script?, hscript, h⟩ := Except.bind_eq_ok.mp h
  cases hload
  cases h
  have henv : (buildPoolServices bitcoin doubleSha256
      (applyEnvOverrides vars config)).payoutScriptPubkey = script? := by
    rw [buildPoolServices, hscript]
    rfl
  exact ⟨rfl, rfl, henv.symm, by rw [henv]; exact hscript⟩

/-- The pool starts just when the file is read and the script is empty or decodes. -/
theorem startup_isOk_iff :
    (startup bitcoin doubleSha256 parseToml file vars).isOk ↔
      ∃ config, readConfig parseToml file = .ok config ∧
        (configuredScript vars config = "" ∨
          (Hex.decode (configuredScript vars config)).isOk) := by
  cases hfile : readConfig parseToml file with
  | error e => simp [startup, loadConfig, hfile, bind, Except.bind, Except.isOk, Except.toBool]
  | ok config =>
    have hstart : (startup bitcoin doubleSha256 parseToml file vars).isOk =
        (applyEnvOverrides vars config).pool.payoutScriptPubkeyBytes.isOk := by
      simp only [startup, loadConfig, hfile, bind, Except.bind]
      cases hbytes : (applyEnvOverrides vars config).pool.payoutScriptPubkeyBytes with
      | error e => rfl
      | ok script? =>
        simp only [pure, Except.pure, hbytes]
        rfl
    rw [hstart, PoolSection.payoutScriptPubkeyBytes_isOk, trim_payoutScriptPubkeyHex]
    simp

/-! ## What a pool that was started submits -/

/-- The template an answer of the RPC has. -/
def JobSourceMode.template : (mode : JobSourceMode) → mode.Answer → Option BlockTemplate
  | .rpc, .ok template => template
  | .rpc, .error _ => none
  | .api, _ => none

/-- What `current_job` gets from outside in the event. -/
def SourceEvent.outside {α : Type} : SourceEvent α → Option α
  | .poll a => some a
  | .currentJob _ a => some a
  | _ => none

/-- The templates the daemon answered with in a run. -/
def templates (mode : JobSourceMode) (es : List (SourceEvent mode.Answer)) : List BlockTemplate :=
  es.filterMap fun e => e.outside.bind mode.template

theorem answers_map_plain (es : List (SourceEvent (JobSourceMode.Answer .rpc))) :
    answers (es.map SourceEvent.plain) = templates .rpc es := by
  rw [answers, templates, List.filterMap_map]
  congr 1
  funext e
  cases e with
  | poll a => cases a <;> rfl
  | connect => rfl
  | currentJob s a => cases a <;> rfl
  | session s event => cases event <;> rfl

/-- What a pool on a configuration submits: nothing on the node API or without a script, and on the
RPC blocks that pay the script. -/
theorem submitted_of_runsTo (hbitcoin : env.bitcoin.FollowsFormat) {config : PoolConfig}
    (hscript : config.pool.payoutScriptPubkeyBytes = .ok env.payoutScriptPubkey)
    {es : List (SourceEvent config.daemon.jobSourceMode.Answer)} {p : Pool}
    (h : (sourceMachine (buildJobSource env.bitcoin config) env parseJson).RunsTo
      (fun _ _ => True) es p) :
    (config.daemon.jobSourceMode = .api ∨ env.payoutScriptPubkey = none →
      p.shared.submitted = []) ∧
    ∀ sub ∈ p.shared.submitted, ∃ script, env.payoutScriptPubkey = some script ∧
      (sub.Regular (templates config.daemon.jobSourceMode es) →
        ∃ template ∈ templates config.daemon.jobSourceMode es, ∃ header cb txs,
          sub.PaysOut env template script header cb txs) := by
  obtain ⟨pool, api, stratum, ⟨url, user, password, mode, token, shareUrl⟩⟩ := config
  have hpayout : pool.payoutScriptPubkeyBytes.toOption.join = env.payoutScriptPubkey := by
    rw [show pool.payoutScriptPubkeyBytes = .ok env.payoutScriptPubkey from hscript]
    rfl
  cases mode with
  | api =>
    have hnil := submitted_eq_nil_of_runsTo withoutAssembly_nodeApi h
    exact ⟨fun _ => hnil, by simp [hnil]⟩
  | rpc =>
    have hsource : buildJobSource env.bitcoin ⟨pool, api, stratum,
        ⟨url, user, password, .rpc, token, shareUrl⟩⟩ = env.currentJob := by
      rw [buildJobSource, hpayout]
      rfl
    rw [hsource] at h
    refine ⟨fun hnone => ?_, fun sub hsub => ?_⟩
    · have hnone := hnone.resolve_left nofun
      have hwithout : WithoutAssembly env.currentJob := by
        intro a job hjob
        rw [PoolEnv.currentJob, rpcCurrentJob.eq_def, hnone] at hjob
        split at hjob <;> cases hjob
      exact submitted_eq_nil_of_runsTo hwithout h
    · rw [← answers_map_plain]
      exact exists_paysOut_of_submitted hbitcoin (plain_of_runsTo h) hsub

/-- The pool submits as it is configured, by a job source, the text of a payout script and the
templates the daemon answered with. -/
structure Started.SubmitsAsConfigured (s : Started) (mode : JobSourceMode) (scriptText : String)
    (templates : List BlockTemplate) (p : Pool) : Prop where
  /-- `main` logs that block submission is armed just when there is a script. -/
  armed : s.payoutScriptPubkey.isSome ↔ scriptText ≠ ""
  disabled : mode = .api ∨ scriptText = "" → p.shared.submitted = []
  pays : ∀ sub ∈ p.shared.submitted, ∃ script : Slice,
    Hex.decode scriptText = .ok script.bytes ∧
      (sub.Regular templates → ∃ template ∈ templates, ∃ header cb txs,
        sub.PaysOut s.env template script header cb txs)

/-- In every run of a pool that `main` has started, whatever the miners send, the regular blocks
that are submitted pay the script that the environment or else the file sets, and none is submitted
when there is no script or the jobs come from the node API. -/
theorem submitsAsConfigured_of_runsTo (hbitcoin : bitcoin.FollowsFormat) {config : PoolConfig}
    (hfile : readConfig parseToml file = .ok config) {s : Started}
    (hstart : startup bitcoin doubleSha256 parseToml file vars = .ok s)
    {es : List (SourceEvent s.config.daemon.jobSourceMode.Answer)} {p : Pool}
    (h : (s.machine parseJson).RunsTo (fun _ _ => True) es p) :
    s.SubmitsAsConfigured (configuredMode vars config) (configuredScript vars config)
      (templates s.config.daemon.jobSourceMode es) p := by
  obtain ⟨hconfig, henv, hhandler, hscript⟩ := payoutScriptPubkey_of_startup hfile hstart
  have hbitcoin : s.env.bitcoin.FollowsFormat := by rw [henv]; exact hbitcoin
  obtain ⟨hdisabled, hpays⟩ := submitted_of_runsTo hbitcoin hscript h
  have hmode : s.config.daemon.jobSourceMode = configuredMode vars config := by rw [hconfig]; rfl
  obtain ⟨hnone, hdecode⟩ := payoutScriptPubkeyBytes_eq_ok hscript
  rw [hconfig, trim_payoutScriptPubkeyHex] at hnone hdecode
  refine ⟨?_, fun hoff => hdisabled ?_, fun sub hsub => ?_⟩
  · rw [hhandler, ne_eq, ← hnone, Option.isSome_iff_ne_none]
  · rwa [hmode, hnone]
  · obtain ⟨script, hsome, hpays⟩ := hpays sub hsub
    exact ⟨script, hdecode script hsome, hpays⟩

/-! ## A fixture -/

/-- The variables of a pool whose operator sets the payout script, with blanks around it. -/
def fixtureVars (name : String) : Option Str :=
  if name = "POOL__PAYOUT_SCRIPT_PUBKEY_HEX" then
    some ⟨" 76a91400112233445566778899aabbccddeeff0011223388ac\n", by decide +kernel⟩
  else none

/-- A file with another payout script. -/
def fixtureFile : PoolConfig where
  pool := { payoutScriptPubkeyHex := ⟨"6a", by decide⟩ }

/-- A pool is started with a script in the environment and another one in the file: the block that a
miner finds pays the one of the environment. -/
theorem submitsAsConfigured_fixture :
    let template := { fixtureTemplate [spendingTransaction] with
      defaultWitnessCommitment := some ⟨"6a24aa21a9ed11223344556677889900", by decide⟩ }
    ∃ s p, ∃ es : List (SourceEvent s.config.daemon.jobSourceMode.Answer),
      startup .ofFormat fixtureEnv.doubleSha256 (fun _ => .ok fixtureFile) (some "") fixtureVars =
        .ok s ∧
      (s.machine fixtureJson).run es = some p ∧ p.shared.submitted.length = 1 ∧
      s.SubmitsAsConfigured .rpc "76a91400112233445566778899aabbccddeeff0011223388ac"
        [template, template] p := by
  intro template
  have hok : (startup .ofFormat fixtureEnv.doubleSha256 (fun _ => .ok fixtureFile) (some "")
      fixtureVars).isOk = true := by
    decide +kernel
  obtain ⟨s, hstart⟩ := Except.exists_of_isOk hok
  obtain ⟨hconfig, henv, -, -⟩ := payoutScriptPubkey_of_startup rfl hstart
  obtain ⟨config, env, script⟩ := s
  dsimp only at hconfig henv
  subst henv hconfig
  set es : List (SourceEvent (JobSourceMode.Answer .rpc)) :=
    ([Event.connect] ++ handshake 0 template ++ solve 0 template).map Event.sourced
  set s : Started := ⟨applyEnvOverrides fixtureVars fixtureFile, _, script⟩
  have hany : ((sourceMachine (buildJobSource .ofFormat (applyEnvOverrides fixtureVars fixtureFile))
      (buildPoolServices .ofFormat fixtureEnv.doubleSha256
        (applyEnvOverrides fixtureVars fixtureFile)) fixtureJson).run es).any
          (fun p => decide (p.shared.submitted.length = 1)) = true := by
    decide +kernel
  obtain ⟨p, hp, hlen⟩ := (Option.any_eq_true _ _).mp hany
  have hscript : configuredScript fixtureVars fixtureFile =
      "76a91400112233445566778899aabbccddeeff0011223388ac" := by
    decide +kernel
  have hsubmits := submitsAsConfigured_of_runsTo BitcoinCrate.ofFormat_followsFormat rfl hstart
    (Machine.runsTo_of_run hp)
  rw [hscript] at hsubmits
  exact ⟨s, p, es, hstart, hp, of_decide_eq_true hlen, hsubmits⟩

end AzcoinPool
