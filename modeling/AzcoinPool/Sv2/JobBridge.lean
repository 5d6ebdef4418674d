import AzcoinPool.Sv2.TemplateAdapter

/-!
# The job bridge

`job_bridge.rs`: a daemon's template in the scaffold's form together with the job the pool makes of
it. The two are made by different decoders and by conversions of different policies, one checked and
one wrapping, and agree in every field they share (`bridgeBlockTemplate_agree`).
-/

namespace AzcoinPool.Sv2

structure AzcoinJobBridge where
  canonical : AzcoinJobTemplate
  job : Job
  deriving DecidableEq

inductive BridgeError where
  | adapter (error : AdapterError)
  | jobConstruction (error : String)
  deriving DecidableEq

def bridgeBlockTemplate (bitcoin : BitcoinCrate) (template : BlockTemplate)
    (payoutScriptPubkey : Slice) : Except BridgeError AzcoinJobBridge := do
  let canonical ← (fromBlockTemplate template).mapError .adapter
  let job ← (templateToJob bitcoin template payoutScriptPubkey).mapError
    fun error => .jobConstruction error.display
  return ⟨canonical, job⟩

theorem bridgeBlockTemplate_eq_ok {bitcoin : BitcoinCrate} {template : BlockTemplate}
    {payoutScriptPubkey : Slice} {bridge : AzcoinJobBridge}
    (h : bridgeBlockTemplate bitcoin template payoutScriptPubkey = .ok bridge) :
    AdaptedTemplate template bridge.canonical ∧
      MappedJob bitcoin template payoutScriptPubkey bridge.job := by
  rw [bridgeBlockTemplate] at h
  obtain ⟨canonical, hcanonical, h⟩ := Except.bind_eq_ok.mp h
  obtain ⟨job, hjob, h⟩ := Except.bind_eq_ok.mp h
  cases h
  exact ⟨.of_fromBlockTemplate (Except.mapError_eq_ok.mp hcanonical),
    .of_templateToJob (Except.mapError_eq_ok.mp hjob)⟩

/-! ## Agreement -/

/-- The canonical template and the job of a bridge hold the same values, and none was truncated on
the way from the template. -/
structure BridgeAgrees (template : BlockTemplate) (bridge : AzcoinJobBridge) : Prop where
  prevHash : bridge.canonical.prevHash = bridge.job.prevHash.bytes
  version : bridge.canonical.version = bridge.job.version
  nbits : bridge.canonical.nbits = bridge.job.nbits
  ntime : bridge.canonical.ntime = bridge.job.ntime
  blockAssembly : ∃ blockAssembly, bridge.job.blockAssembly = some blockAssembly ∧
    bridge.canonical.height.toUInt64 = blockAssembly.height ∧
    bridge.canonical.coinbaseValue = blockAssembly.coinbaseValue
  curtime : bridge.job.ntime.toUInt64 = template.curtime
  height : bridge.canonical.height.toUInt64 = template.height

theorem prevHash_agree {template : BlockTemplate} {canonical : AzcoinJobTemplate}
    (hcanonical : AdaptedTemplate template canonical) {prevHash : Bytes32}
    (h : AzcoinPool.decodePrevHash template.previousblockhash.text = .ok prevHash) :
    canonical.prevHash = prevHash.bytes := by
  obtain ⟨bytes, hdecode, hlen, heq⟩ := hcanonical.prevHash
  rw [AzcoinPool.decodePrevHash] at h
  obtain ⟨bytes', hfield, h⟩ := Except.bind_eq_ok.mp h
  obtain rfl := decodeHex_agree hdecode (decodeHexField_eq_ok.mp hfield)
  rw [Bytes32.ofList?, dif_pos hlen] at h
  cases h
  exact heq

theorem nbits_agree {template : BlockTemplate} {canonical : AzcoinJobTemplate}
    (hcanonical : AdaptedTemplate template canonical) {nbits : UInt32}
    (h : decodeBits template.bits.text = .ok nbits) : canonical.nbits = nbits := by
  obtain ⟨bytes, hdecode, hlen, heq⟩ := hcanonical.nbits
  rw [decodeBits] at h
  obtain ⟨bytes', hfield, h⟩ := Except.bind_eq_ok.mp h
  obtain rfl := decodeHex_agree hdecode (decodeHexField_eq_ok.mp hfield)
  rw [if_neg (not_not.mpr hlen)] at h
  cases h
  exact heq

/-- The wrapping cast of a time that passes the checked one loses nothing. -/
theorem ntimeToU32_toUInt64 (n : UInt32) : ntimeToU32 n.toUInt64 = n := by
  rw [ntimeToU32, ← UInt32.toNat_inj]
  simp

/-- The scaffold's decoder and the `hex` crate agree on what both accept, and wherever the bridge
succeeds its two halves agree. -/
theorem bridgeBlockTemplate_agree :
    (∀ hex field bytes bytes', decodeHex hex field = .ok bytes → Hex.decode hex = .ok bytes' →
      bytes = bytes') ∧
    ∀ bitcoin template payoutScriptPubkey bridge,
      bridgeBlockTemplate bitcoin template payoutScriptPubkey = .ok bridge →
        BridgeAgrees template bridge := by
  refine ⟨fun hex field bytes bytes' => decodeHex_agree, ?_⟩
  intro bitcoin template payoutScriptPubkey bridge h
  obtain ⟨hcanonical, hjob⟩ := bridgeBlockTemplate_eq_ok h
  have hntime : bridge.canonical.ntime = bridge.job.ntime := by
    rw [hjob.ntime, ← hcanonical.ntime, ntimeToU32_toUInt64]
  obtain ⟨flags, commitment, txs, -, -, -, -, hassembly⟩ := hjob.blockAssembly
  exact {
    prevHash := prevHash_agree hcanonical hjob.prevHash
    version := hcanonical.version.trans hjob.version.symm
    nbits := nbits_agree hcanonical hjob.nbits
    ntime := hntime
    blockAssembly := ⟨_, hassembly, hcanonical.height, hcanonical.coinbaseValue⟩
    curtime := hntime ▸ hcanonical.ntime
    height := hcanonical.height }

/-- The template of the bridge's test, its target in upper case. -/
theorem bridgeBlockTemplate_agree_fixture :
    ∃ bridge, bridgeBlockTemplate .ofFormat
        { fixtureTemplate [] with bits := ⟨"1D00FFFF", by decide⟩ } fixturePayoutScript =
          .ok bridge ∧
      BridgeAgrees { fixtureTemplate [] with bits := ⟨"1D00FFFF", by decide⟩ } bridge := by
  have hok : (bridgeBlockTemplate .ofFormat
      { fixtureTemplate [] with bits := ⟨"1D00FFFF", by decide⟩ } fixturePayoutScript).isOk =
        true := by
    decide +kernel
  obtain ⟨bridge, hbridge⟩ := Except.exists_of_isOk hok
  exact ⟨bridge, hbridge, bridgeBlockTemplate_agree.2 _ _ _ _ hbridge⟩

end AzcoinPool.Sv2
