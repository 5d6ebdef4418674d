import AzcoinPool.Lib.Transaction

/-!
# The `bitcoin` crate

The functions of the `bitcoin` crate the pool calls, as a record of functions, and what is relied
on of them: they write and read the transaction format (`BitcoinCrate.FollowsFormat`).
`BitcoinCrate.ofFormat` is the crate read off the format itself.
-/

open Bitcoin

namespace AzcoinPool

/-- The consensus encoding of the `bitcoin` crate, as far as the pool uses it. -/
structure BitcoinCrate where
  /-- `consensus::serialize` of a transaction. -/
  serialize : Transaction → Bytes
  /-- `consensus::deserialize` to a transaction, the error as its text. -/
  deserialize : Bytes → Except String Transaction
  /-- `consensus_encode` of a version, an input list, an output list, a lock time, a `VarInt`. -/
  encodeVersion : Int32 → Bytes
  encodeInput : List TxIn → Bytes
  encodeOutput : List TxOut → Bytes
  encodeLockTime : UInt32 → Bytes
  encodeVarInt : UInt64 → Bytes

namespace BitcoinCrate

/-- The crate writes and reads the Bitcoin transaction format, and reading takes the whole input. -/
structure FollowsFormat (bitcoin : BitcoinCrate) : Prop where
  serialize : ∀ {tx}, transaction.Valid tx → bitcoin.serialize tx = transaction.encode tx
  deserialize : ∀ {bs tx},
    bitcoin.deserialize bs = .ok tx ↔ transaction.decode bs = some (tx, [])
  encodeVersion : ∀ v, bitcoin.encodeVersion v = version.encode v
  encodeInput : ∀ {is : List TxIn}, inputs.Valid (is.map TxIn.bare) →
    bitcoin.encodeInput is = inputs.encode (is.map TxIn.bare)
  encodeOutput : ∀ {os : List TxOut}, outputs.Valid os →
    bitcoin.encodeOutput os = outputs.encode os
  encodeLockTime : ∀ t, bitcoin.encodeLockTime t = PrefixCodec.u32.encode t
  encodeVarInt : ∀ n : UInt64, bitcoin.encodeVarInt n = PrefixCodec.encodeVarInt n.toNat

/-- The crate as the format gives it. -/
def ofFormat : BitcoinCrate where
  serialize := transaction.encode
  deserialize bs :=
    match transaction.decode bs with
    | some (tx, []) => .ok tx
    | some (_, _ :: _) => .error "data not consumed entirely when explicitly deserializing"
    | none => .error "parse failed"
  encodeVersion := version.encode
  encodeInput is := inputs.encode (is.map TxIn.bare)
  encodeOutput := outputs.encode
  encodeLockTime := PrefixCodec.u32.encode
  encodeVarInt n := PrefixCodec.encodeVarInt n.toNat

theorem ofFormat_followsFormat : ofFormat.FollowsFormat where
  serialize _ := rfl
  deserialize := by
    intro bs tx
    simp only [ofFormat]
    split <;> next h => simp [h]
  encodeVersion _ := rfl
  encodeInput _ := rfl
  encodeOutput _ := rfl
  encodeLockTime _ := rfl
  encodeVarInt _ := rfl

end BitcoinCrate

end AzcoinPool
