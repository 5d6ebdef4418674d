import AzcoinPool.Coin.BitcoinCrate
import AzcoinPool.Core.PoolError

/-!
# Building the coinbase transaction

`coinbase_builder.rs`: the coinbase script with the height and the auxiliary flags, the coinbase
transaction around it, and its serialization without witness data. The script is short in front of
the flags (`buildCoinbaseScriptSig_eq`): the push opcode of the height is at most 9.
-/

open Bitcoin

namespace AzcoinPool

/-- `CoinbaseBuildInputs`. -/
structure CoinbaseBuildInputs where
  height : UInt64
  coinbaseValue : UInt64
  payoutScriptPubkey : Bytes
  coinbaseAuxFlags : Option Bytes
  defaultWitnessCommitment : Option Bytes

/-! ## The coinbase script -/

/-- The loop of `encode_script_num`: the low byte of what remains, then the rest. -/
def scriptNumBytes (remaining : UInt64) : Bytes :=
  if remaining = 0 then [] else (remaining &&& 0xff).toUInt8 :: scriptNumBytes (remaining >>> 8)
termination_by remaining.toNat
decreasing_by
  next h =>
    have hpos : remaining.toNat ≠ 0 := fun h0 => h (UInt64.toNat_inj.mp h0)
    have h8 : (remaining >>> 8).toNat = remaining.toNat / 256 := by
      rw [UInt64.toNat_shiftRight, Nat.shiftRight_eq_div_pow]
      rfl
    omega

def encodeScriptNum (value : UInt64) : Bytes :=
  if value = 0 then []
  else
    let encoded := scriptNumBytes value
    if encoded.getLast?.any fun byte => byte &&& 0x80 != 0 then encoded ++ [0] else encoded

/-- `push_data`; the casts `as u8`, `as u16` and `as u32` of the length keep its low bytes. -/
def pushData (buf data : Bytes) : Bytes :=
  let len := data.length
  let buf :=
    if len ≤ 0x4b then buf ++ [UInt8.ofNat len]
    else if len ≤ 0xff then buf ++ [0x4c] ++ [UInt8.ofNat len]
    else if len ≤ 0xffff then buf ++ [0x4d] ++ Endian.leBytes 2 len
    else buf ++ [0x4e] ++ Endian.leBytes 4 len
  buf ++ data

def buildCoinbaseScriptSig (height : UInt64) (coinbaseAuxFlags : Option Bytes) : Bytes :=
  let scriptSig := pushData [] (encodeScriptNum height)
  match coinbaseAuxFlags with
  | some flags => if flags ≠ [] then pushData scriptSig flags else scriptSig
  | none => scriptSig

/-! ## The transaction -/

/-- The transaction `build_coinbase_transaction` serializes. -/
def coinbaseTransaction (inputs : CoinbaseBuildInputs) : Transaction where
  version := 1
  lockTime := 0
  input := [{
    previousOutput := OutPoint.null
    scriptSig := buildCoinbaseScriptSig inputs.height inputs.coinbaseAuxFlags
    sequence := 0xffffffff
    witness := match inputs.defaultWitnessCommitment with
      | some _ => [List.replicate 32 0]
      | none => [] }]
  output := ⟨inputs.coinbaseValue, inputs.payoutScriptPubkey⟩ ::
    match inputs.defaultWitnessCommitment with
    | some commitmentScript => [⟨0, commitmentScript⟩]
    | none => []

def buildCoinbaseTransaction (bitcoin : BitcoinCrate) (inputs : CoinbaseBuildInputs) :
    Except PoolError Bytes :=
  if inputs.payoutScriptPubkey = [] then
    .error (.config "coinbase payout script_pubkey cannot be empty")
  else .ok (bitcoin.serialize (coinbaseTransaction inputs))

/-- The transaction in the legacy format: version, inputs, outputs, lock time. -/
def serializeNoWitness (bitcoin : BitcoinCrate) (tx : Transaction) : Bytes :=
  bitcoin.encodeVersion tx.version ++ bitcoin.encodeInput tx.input ++
    bitcoin.encodeOutput tx.output ++ bitcoin.encodeLockTime tx.lockTime

theorem eq_serialize_of_buildCoinbaseTransaction {bitcoin : BitcoinCrate}
    {inputs : CoinbaseBuildInputs} {txBytes : Bytes}
    (h : buildCoinbaseTransaction bitcoin inputs = .ok txBytes) :
    txBytes = bitcoin.serialize (coinbaseTransaction inputs) := by
  rw [buildCoinbaseTransaction] at h
  split at h
  · cases h
  · exact (Except.ok.inj h).symm

/-! ## The shape of the script -/

theorem length_scriptNumBytes_le {value : UInt64} {k : Nat} (h : value.toNat < 256 ^ k) :
    (scriptNumBytes value).length ≤ k := by
  induction k generalizing value with
  | zero =>
    have h0 : value = 0 := UInt64.toNat_inj.mp (by simpa using h)
    rw [scriptNumBytes, if_pos h0]
    exact Nat.le_refl _
  | succ k ih =>
    rw [scriptNumBytes]
    split
    · exact Nat.zero_le _
    · have hshift : (value >>> 8).toNat < 256 ^ k := by
        rw [UInt64.toNat_shiftRight, Nat.shiftRight_eq_div_pow]
        rw [Nat.pow_succ] at h
        exact Nat.div_lt_of_lt_mul (by simpa [Nat.mul_comm] using h)
      simpa using ih hshift

/-- A height takes nine bytes at most. -/
theorem length_encodeScriptNum_le (value : UInt64) : (encodeScriptNum value).length ≤ 9 := by
  have h8 : (scriptNumBytes value).length ≤ 8 := length_scriptNumBytes_le value.toNat_lt
  rw [encodeScriptNum]
  split
  · simp
  · dsimp only
    split <;> simp <;> omega

/-- What `push_data` writes in front of the data. -/
def pushPrefix (data : Bytes) : Bytes :=
  let len := data.length
  if len ≤ 0x4b then [UInt8.ofNat len]
  else if len ≤ 0xff then [0x4c, UInt8.ofNat len]
  else if len ≤ 0xffff then 0x4d :: Endian.leBytes 2 len
  else 0x4e :: Endian.leBytes 4 len

theorem pushData_eq (buf data : Bytes) : pushData buf data = buf ++ pushPrefix data ++ data := by
  simp only [pushData, pushPrefix]
  split
  · rfl
  · split
    · simp
    · split <;> simp

theorem length_pushPrefix_le (data : Bytes) : (pushPrefix data).length ≤ 5 := by
  simp only [pushPrefix]
  split
  · simp
  · split
    · simp
    · split <;> simp

/-- The script in front of its flags: an opcode of at most 9, the height, the opcode of the
flags. -/
theorem buildCoinbaseScriptSig_eq (height : UInt64) (flags : Bytes) (h : flags ≠ []) :
    ∃ op pre, op ≤ 9 ∧ pre.length ≤ 14 ∧
      buildCoinbaseScriptSig height (some flags) = op :: (pre ++ flags) := by
  have hlen := length_encodeScriptNum_le height
  have hop : pushPrefix (encodeScriptNum height) =
      [UInt8.ofNat (encodeScriptNum height).length] := by
    rw [pushPrefix, if_pos (by omega)]
  have hval : (UInt8.ofNat (encodeScriptNum height).length).toNat =
      (encodeScriptNum height).length :=
    UInt8.toNat_ofNat_of_lt' (Nat.lt_of_le_of_lt hlen (by decide))
  refine ⟨UInt8.ofNat (encodeScriptNum height).length, encodeScriptNum height ++ pushPrefix flags,
    UInt8.le_iff_toNat_le.mpr (by rw [hval]; exact hlen), ?_, ?_⟩
  · have := length_pushPrefix_le flags
    rw [List.length_append]
    omega
  · simp [buildCoinbaseScriptSig, h, pushData_eq, hop]

end AzcoinPool
