import AzcoinPool.Coin.CoinbaseBuilder
import AzcoinPool.Core.Job
import AzcoinPool.Lib.Hex

/-!
# From block templates to jobs

`template_mapper.rs`: the daemon's block template, the decoders of its fields with their errors,
the merkle branch, the split of the coinbase at the extranonce placeholder, and `templateToJob`.
`templateToJob_eq_ok` says once what a successful mapping gives.
-/

open Bitcoin

namespace AzcoinPool

/-- `SV1_EXTRANONCE_PLACEHOLDER`. -/
def sv1ExtranoncePlaceholder : Bytes := [0xfa, 0xce, 0xb0, 0x0c, 0xde, 0xad, 0xbe, 0xef]

structure TransactionEntry where
  data : Str
  txid : Option Str
  hash : Option Str
  deriving DecidableEq

structure CoinbaseAux where
  flags : Option Str
  deriving DecidableEq

/-- The daemon's `getblocktemplate` response. -/
structure BlockTemplate where
  version : UInt32
  previousblockhash : Str
  bits : Str
  curtime : UInt64
  height : UInt64
  transactions : List TransactionEntry
  coinbasevalue : UInt64
  coinbaseaux : Option CoinbaseAux
  defaultWitnessCommitment : Option Str
  deriving DecidableEq

def ntimeToU32 (curtime : UInt64) : UInt32 := curtime.toUInt32

/-! ## Decoding the fields -/

/-- `hex::decode` with the field's name in front of the error. -/
def decodeHexField (field : String) (hex : String) : Except PoolError Bytes :=
  (Hex.decode hex).mapError fun e => .daemon (field ++ " hex: " ++ e.display)

theorem decodeHexField_eq_ok {field hex : String} {bs : Bytes} :
    decodeHexField field hex = .ok bs ↔ Hex.decode hex = .ok bs :=
  Except.mapError_eq_ok

def decodePrevHash (hex : String) : Except PoolError Bytes32 := do
  let bytes ← decodeHexField "prev_hash" hex
  match Bytes32.ofList? bytes with
  | none => .error (.daemon ("prev_hash length " ++ bytes.length.repr ++ " != 32"))
  | some arr => .ok arr.reverse

def decodeBits (hex : String) : Except PoolError UInt32 := do
  let bytes ← decodeHexField "bits" hex
  if bytes.length ≠ 4 then
    .error (.daemon ("bits length " ++ bytes.length.repr ++ " != 4"))
  else .ok (fromBeBytes bytes)

/-- An optional hexadecimal field: absent and blank are both `none`. -/
def decodeOptionalHex (field : String) : Option Str → Except PoolError (Option Bytes)
  | none => .ok none
  | some text =>
    let text := trim text.text
    if text = "" then .ok none else (decodeHexField field text).map some

def decodeCoinbaseAuxFlags (template : BlockTemplate) : Except PoolError (Option Bytes) :=
  decodeOptionalHex "coinbaseaux.flags" (template.coinbaseaux.bind (·.flags))

def decodeDefaultWitnessCommitment (template : BlockTemplate) : Except PoolError (Option Bytes) :=
  decodeOptionalHex "default_witness_commitment" template.defaultWitnessCommitment

/-- The transactions' bodies from the one at `index` on; the first that does not decode fails. -/
def decodeTransactionsFrom (index : Nat) : List TransactionEntry → Except PoolError (List Bytes)
  | [] => .ok []
  | tx :: txs => do
    let data ← decodeHexField ("transaction " ++ index.repr ++ " data") tx.data.text
    let rest ← decodeTransactionsFrom (index + 1) txs
    return data :: rest

def decodeTemplateTransactions (template : BlockTemplate) : Except PoolError (List Bytes) :=
  decodeTransactionsFrom 0 template.transactions

/-- The bodies are the entries' data, decoded in order. -/
theorem forall₂_of_decodeTransactionsFrom {index : Nat} {entries : List TransactionEntry}
    {txs : List Bytes} (h : decodeTransactionsFrom index entries = .ok txs) :
    List.Forall₂ (fun entry bytes => Hex.decode entry.data.text = .ok bytes) entries txs := by
  induction entries generalizing index txs with
  | nil => cases h; exact .nil
  | cons entry entries ih =>
    rw [decodeTransactionsFrom] at h
    obtain ⟨data, hdata, h⟩ := Except.bind_eq_ok.mp h
    obtain ⟨rest, hrest, h⟩ := Except.bind_eq_ok.mp h
    cases h
    exact .cons (decodeHexField_eq_ok.mp hdata) (ih hrest)

/-! ## The merkle branch -/

/-- What one transaction adds to the branch: its id in header byte order, `txid` before `hash`, or
nothing when the id is missing, not hexadecimal or not of 32 bytes. -/
def merkleBranchEntry (tx : TransactionEntry) : Option Bytes32 :=
  match tx.txid.or tx.hash with
  | none => none
  | some h =>
    match Hex.decode h.text with
    | .ok b => (Bytes32.ofList? b).map Bytes32.reverse
    | .error _ => none

def buildMerkleBranch (template : BlockTemplate) : List Bytes32 :=
  template.transactions.filterMap merkleBranchEntry

/-! ## The coinbase parts -/

/-- The inputs `build_coinbase_parts` builds the coinbase from: the flags with the placeholder
behind them. -/
def coinbasePartsInputs (template : BlockTemplate) (payoutScriptPubkey : Bytes)
    (coinbaseAuxFlags defaultWitnessCommitment : Option Bytes) : CoinbaseBuildInputs where
  height := template.height
  coinbaseValue := template.coinbasevalue
  payoutScriptPubkey := payoutScriptPubkey
  coinbaseAuxFlags := some (coinbaseAuxFlags.getD [] ++ sv1ExtranoncePlaceholder)
  defaultWitnessCommitment := defaultWitnessCommitment

def buildCoinbaseParts (bitcoin : BitcoinCrate) (template : BlockTemplate)
    (payoutScriptPubkey : Bytes) (coinbaseAuxFlags defaultWitnessCommitment : Option Bytes) :
    Except PoolError (Bytes × Bytes) := do
  let coinbaseTxBytes ← buildCoinbaseTransaction bitcoin
    (coinbasePartsInputs template payoutScriptPubkey coinbaseAuxFlags defaultWitnessCommitment)
  let coinbaseTx ← (bitcoin.deserialize coinbaseTxBytes).mapError
    fun e => .internal ("coinbase deserialize: " ++ e)
  let coinbaseNoWitness := serializeNoWitness bitcoin coinbaseTx
  match findWindow sv1ExtranoncePlaceholder coinbaseNoWitness with
  | none => .error (.internal "coinbase transaction missing SV1 extranonce placeholder")
  | some splitAt =>
    return (coinbaseNoWitness.take splitAt,
      coinbaseNoWitness.drop (splitAt + sv1ExtranoncePlaceholder.length))

/-! ## The job -/

def templateToJob (bitcoin : BitcoinCrate) (template : BlockTemplate)
    (payoutScriptPubkey : Slice) : Except PoolError Job := do
  let prevHash ← decodePrevHash template.previousblockhash.text
  let nbits ← decodeBits template.bits.text
  let merkleBranch := buildMerkleBranch template
  let coinbaseAuxFlags ← decodeCoinbaseAuxFlags template
  let defaultWitnessCommitment ← decodeDefaultWitnessCommitment template
  let templateTransactions ← decodeTemplateTransactions template
  let (coinbasePart1, coinbasePart2) ← buildCoinbaseParts bitcoin template
    payoutScriptPubkey.bytes coinbaseAuxFlags defaultWitnessCommitment
  return {
    jobId := decimal template.height
    prevHash := prevHash
    coinbasePart1 := coinbasePart1
    coinbasePart2 := coinbasePart2
    merkleBranch := merkleBranch
    version := template.version
    nbits := nbits
    ntime := ntimeToU32 template.curtime
    cleanJobs := true
    blockAssembly := some {
      height := template.height
      coinbaseValue := template.coinbasevalue
      coinbaseAuxFlags := coinbaseAuxFlags
      templateTransactions := templateTransactions
      defaultWitnessCommitment := defaultWitnessCommitment } }

/-- `RpcJobSource::current_job`, given what `get_block_template` returned: errors and a missing
template, payout script or mapping all give no job. -/
def rpcCurrentJob (bitcoin : BitcoinCrate) (payoutScriptPubkey : Option Slice) :
    Except PoolError (Option BlockTemplate) → Option Job
  | .ok (some template) =>
    match payoutScriptPubkey with
    | none => none
    | some payoutScriptPubkey => (templateToJob bitcoin template payoutScriptPubkey).toOption
  | .ok none => none
  | .error _ => none

/-! ## What a successful mapping gives -/

/-- The fields of a job that was mapped. -/
structure MappedJob (bitcoin : BitcoinCrate) (template : BlockTemplate)
    (payoutScriptPubkey : Slice) (job : Job) : Prop where
  jobId : job.jobId = decimal template.height
  prevHash : decodePrevHash template.previousblockhash.text = .ok job.prevHash
  nbits : decodeBits template.bits.text = .ok job.nbits
  version : job.version = template.version
  ntime : job.ntime = ntimeToU32 template.curtime
  merkleBranch : job.merkleBranch = buildMerkleBranch template
  cleanJobs : job.cleanJobs = true
  blockAssembly : ∃ flags commitment txs, decodeCoinbaseAuxFlags template = .ok flags ∧
    decodeDefaultWitnessCommitment template = .ok commitment ∧
    decodeTemplateTransactions template = .ok txs ∧
    buildCoinbaseParts bitcoin template payoutScriptPubkey.bytes flags commitment =
      .ok (job.coinbasePart1, job.coinbasePart2) ∧
    job.blockAssembly = some ⟨template.height, template.coinbasevalue, flags, txs, commitment⟩

/-- A mapping succeeds with a job that has the template's fields. -/
theorem MappedJob.of_templateToJob {bitcoin : BitcoinCrate} {template : BlockTemplate}
    {payoutScriptPubkey : Slice} {job : Job}
    (h : templateToJob bitcoin template payoutScriptPubkey = .ok job) :
    MappedJob bitcoin template payoutScriptPubkey job := by
  rw [templateToJob] at h
  obtain ⟨prevHash, hprev, h⟩ := Except.bind_eq_ok.mp h
  obtain ⟨nbits, hbits, h⟩ := Except.bind_eq_ok.mp h
  obtain ⟨flags, hflags, h⟩ := Except.bind_eq_ok.mp h
  obtain ⟨commitment, hcommitment, h⟩ := Except.bind_eq_ok.mp h
  obtain ⟨txs, htxs, h⟩ := Except.bind_eq_ok.mp h
  obtain ⟨⟨part1, part2⟩, hparts, h⟩ := Except.bind_eq_ok.mp h
  cases h
  exact ⟨rfl, hprev, hbits, rfl, rfl, rfl, rfl, flags, commitment, txs, hflags, hcommitment, htxs,
    hparts, rfl⟩

namespace MappedJob

variable {bitcoin : BitcoinCrate} {template : BlockTemplate} {payoutScriptPubkey : Slice}
  {job : Job}

theorem height (h : MappedJob bitcoin template payoutScriptPubkey job) :
    job.height = template.height := by
  obtain ⟨_, _, _, -, -, -, -, hblock⟩ := h.blockAssembly
  simp [Job.height, hblock]

/-- A mapped job's id is the decimal text of its height. -/
theorem jobId_eq (h : MappedJob bitcoin template payoutScriptPubkey job) :
    job.jobId = decimal job.height := by
  rw [h.jobId, h.height]

end MappedJob

/-! ## A fixture -/

/-- A transaction whose id is one digit repeated. -/
def fixtureTransaction (digit : Char)
    (h : (String.ofList (List.replicate 64 digit)).utf8ByteSize ≤ isizeMax := by decide +kernel) :
    TransactionEntry where
  data := ⟨"deadbeef", by decide⟩
  txid := some ⟨String.ofList (List.replicate 64 digit), h⟩
  hash := none

/-- A transaction whose id reads differently in the two directions. -/
def asymmetricTransaction : TransactionEntry where
  data := ⟨"deadbeef", by decide⟩
  txid := some
    ⟨"0000000000000000000000000000000000000000000000000000000000000001", by decide +kernel⟩
  hash := none

/-- The template of the mapper's tests, with the transactions given. -/
def fixtureTemplate (transactions : List TransactionEntry) : BlockTemplate where
  version := 0x20000000
  previousblockhash :=
    ⟨"0000000000000000000000000000000000000000000000000000000000000001", by decide +kernel⟩
  bits := ⟨"1d00ffff", by decide⟩
  curtime := 1700000000
  height := 100
  transactions := transactions
  coinbasevalue := 5000000000
  coinbaseaux := none
  defaultWitnessCommitment := none

/-- A template of the same height on another parent. -/
def siblingTemplate : BlockTemplate :=
  { fixtureTemplate [] with
    previousblockhash :=
      ⟨"0000000000000000000000000000000000000000000000000000000000000002", by decide +kernel⟩ }

/-- The payout script of the mapper's tests. -/
def fixturePayoutScript : Slice where
  bytes := [0x76, 0xa9, 0x14, 0x00, 0x11, 0x22, 0x33, 0x44, 0x55, 0x66, 0x77, 0x88, 0x99, 0xaa,
    0xbb, 0xcc, 0xdd, 0xee, 0xff, 0x00, 0x11, 0x22, 0x33, 0x88, 0xac]

end AzcoinPool
