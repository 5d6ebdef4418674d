import AzcoinPool.Coin.CandidateSubmit
import AzcoinPool.Coin.CoinbaseBuilder

/-!
# The raw block

`build_raw_block` writes a block that is read back: it succeeds exactly on a header of 80 bytes, a
coinbase and transactions that decode completely, and what it writes decodes to that header, that
coinbase and those transactions in order, with nothing left (`buildRawBlock_roundTrip`). The count
in front of the transactions never overflows, since a slice holds at most `isize::MAX` vectors.
-/

open Bitcoin

namespace AzcoinPool

/-- A slice of byte vectors as the allocator can hold it. -/
structure VecSlice where
  items : List Bytes
  size_le : items.length ≤ isizeMax := by decide

/-! ## Reading the block back -/

theorem exists_forall₂_of_validateTransactionsFrom {bitcoin : BitcoinCrate} {index : Nat}
    {txs : List Bytes} (h : validateTransactionsFrom bitcoin index txs = .ok ()) :
    ∃ decoded, List.Forall₂ (fun bytes tx => bitcoin.deserialize bytes = .ok tx) txs decoded := by
  induction txs generalizing index with
  | nil => exact ⟨[], .nil⟩
  | cons bytes txs ih =>
    rw [validateTransactionsFrom] at h
    obtain ⟨_, hbytes, h⟩ := Except.bind_eq_ok.mp h
    obtain ⟨decoded, hdecoded⟩ := ih h
    rw [validateTransactionBytes] at hbytes
    split at hbytes
    · next tx htx => exact ⟨tx :: decoded, .cons htx hdecoded⟩
    · cases hbytes

/-- What decodes to transactions is their serialization. -/
theorem flatten_eq_flatMap_encode {bitcoin : BitcoinCrate} (hbitcoin : bitcoin.FollowsFormat)
    {txs : List Bytes} {decoded : List Transaction}
    (h : List.Forall₂ (fun bytes tx => bitcoin.deserialize bytes = .ok tx) txs decoded) :
    (∀ tx ∈ decoded, transaction.Valid tx) ∧
      txs.flatten = decoded.flatMap transaction.encode := by
  induction h with
  | nil => exact ⟨by simp, rfl⟩
  | @cons bytes tx txs decoded hbytes _ ih =>
    obtain ⟨hvalid, hflatten⟩ := ih
    obtain ⟨htx, rfl⟩ := transaction.decode_eq_some_nil.mp (hbitcoin.deserialize.mp hbytes)
    refine ⟨?_, by rw [List.flatten_cons, List.flatMap_cons, hflatten]⟩
    intro t ht
    rcases List.mem_cons.mp ht with rfl | ht
    · exact htx
    · exact hvalid t ht

/-- A raw block reads as its header, its coinbase and its transactions. -/
theorem block_decode_of_buildRawBlock {bitcoin : BitcoinCrate} (hbitcoin : bitcoin.FollowsFormat)
    {header rawBlock : Bytes} {txs : List Bytes} {cb : Transaction} (hcb : transaction.Valid cb)
    (h : buildRawBlock bitcoin header (transaction.encode cb) txs = .ok rawBlock) :
    ∃ decoded, block.decode rawBlock = some ((header, cb :: decoded), []) ∧
      List.Forall₂ (fun bytes tx => bitcoin.deserialize bytes = .ok tx) txs decoded := by
  obtain ⟨hheader, htxs, hcount, rfl⟩ := buildRawBlock_eq_ok h
  obtain ⟨decoded, hdecoded⟩ := exists_forall₂_of_validateTransactionsFrom htxs
  obtain ⟨hvalid, hflatten⟩ := flatten_eq_flatMap_encode hbitcoin hdecoded
  have hlen : (cb :: decoded).length = 1 + txs.length := by
    rw [List.length_cons, ← hdecoded.length_eq, Nat.add_comm]
  refine ⟨decoded, block.decode_eq_some_nil.mpr ⟨⟨hheader, ?_, ?_⟩, ?_⟩, hdecoded⟩
  · show (cb :: decoded).length < 2 ^ 64
    rw [hlen]
    exact hcount
  · show ∀ tx ∈ cb :: decoded, transaction.Valid tx
    exact List.forall_mem_cons.mpr ⟨hcb, hvalid⟩
  · rw [block_encode, hlen, hbitcoin.encodeVarInt, UInt64.toNat_ofNat_of_lt' hcount, hflatten,
      List.flatMap_cons]
    simp only [List.append_assoc]

/-- The bytes are the serialization of one transaction. -/
def DecodesCompletely (bytes : Bytes) : Prop := ∃ tx, transaction.decode bytes = some (tx, [])

theorem decodesCompletely_iff {bytes : Bytes} : DecodesCompletely bytes ↔
    (transaction.decode bytes).any (fun p => p.2.isEmpty) = true := by
  rw [DecodesCompletely, Option.any_eq_true]
  constructor
  · rintro ⟨tx, htx⟩
    exact ⟨_, htx, rfl⟩
  · rintro ⟨⟨tx, rest⟩, htx, hrest⟩
    obtain rfl := List.isEmpty_iff.mp hrest
    exact ⟨tx, htx⟩

instance (bytes : Bytes) : Decidable (DecodesCompletely bytes) :=
  decidable_of_iff _ decodesCompletely_iff.symm

theorem deserialize_isOk_iff {bitcoin : BitcoinCrate} (hbitcoin : bitcoin.FollowsFormat)
    (bytes : Bytes) : (bitcoin.deserialize bytes).isOk = true ↔ DecodesCompletely bytes := by
  constructor
  · intro h
    obtain ⟨tx, htx⟩ := Except.exists_of_isOk h
    exact ⟨tx, hbitcoin.deserialize.mp htx⟩
  · rintro ⟨tx, htx⟩
    rw [hbitcoin.deserialize.mpr htx]
    rfl

/-- A raw block is built exactly from a header of 80 bytes and transactions that decode. -/
theorem buildRawBlock_isOk_iff {bitcoin : BitcoinCrate} (hbitcoin : bitcoin.FollowsFormat)
    (header coinbase : Bytes) (txs : VecSlice) :
    (buildRawBlock bitcoin header coinbase txs.items).isOk = true ↔
      header.length = 80 ∧ DecodesCompletely coinbase ∧ ∀ tx ∈ txs.items, DecodesCompletely tx := by
  have hcount : 1 + txs.items.length < 2 ^ 64 := by
    have := txs.size_le
    rw [isizeMax] at this
    omega
  by_cases hheader : header.length = 80
  · simp only [buildRawBlock_isOk hheader, BlockDecodes, deserialize_isOk_iff hbitcoin, hheader,
      hcount, true_and, and_true]
  · rw [buildRawBlock, if_pos hheader]
    exact iff_of_false Bool.false_ne_true fun h => hheader h.1

/-- What is built is read back: the header, the coinbase first, the transactions in order. -/
theorem buildRawBlock_roundTrip {bitcoin : BitcoinCrate} (hbitcoin : bitcoin.FollowsFormat)
    (header coinbase : Bytes) (txs : VecSlice) :
    ((buildRawBlock bitcoin header coinbase txs.items).isOk = true ↔
      header.length = 80 ∧ DecodesCompletely coinbase ∧
        ∀ tx ∈ txs.items, DecodesCompletely tx) ∧
    ∀ rawBlock, buildRawBlock bitcoin header coinbase txs.items = .ok rawBlock →
      ∃ cb decoded, block.decode rawBlock = some ((header, cb :: decoded), []) ∧
        transaction.decode coinbase = some (cb, []) ∧
        List.Forall₂ (fun bytes tx => transaction.decode bytes = some (tx, [])) txs.items
          decoded := by
  refine ⟨buildRawBlock_isOk_iff hbitcoin header coinbase txs, fun rawBlock h => ?_⟩
  have hok : (buildRawBlock bitcoin header coinbase txs.items).isOk = true := by
    rw [h]
    rfl
  obtain ⟨-, ⟨cb, hcb⟩, -⟩ := (buildRawBlock_isOk_iff hbitcoin header coinbase txs).mp hok
  obtain ⟨hvalid, rfl⟩ := transaction.decode_eq_some_nil.mp hcb
  obtain ⟨decoded, hdecode, hdecoded⟩ := block_decode_of_buildRawBlock hbitcoin hvalid h
  exact ⟨cb, decoded, hdecode, hcb, hdecoded.imp fun _ _ => hbitcoin.deserialize.mp⟩

/-- The coinbase of a height, without flags or witness. -/
def plainCoinbase (height : UInt64) : Bytes :=
  transaction.encode (coinbaseTransaction ⟨height, 5000000000, [0x51], none, none⟩)

/-- A block of a coinbase and two further transactions. -/
theorem buildRawBlock_roundTrip_three :
    ∃ rawBlock, buildRawBlock .ofFormat (List.replicate 80 0x11) (plainCoinbase 100)
        [plainCoinbase 200, plainCoinbase 300] = .ok rawBlock ∧
      ∃ cb decoded, block.decode rawBlock = some ((List.replicate 80 0x11, cb :: decoded), []) ∧
        transaction.decode (plainCoinbase 100) = some (cb, []) ∧
        List.Forall₂ (fun bytes tx => transaction.decode bytes = some (tx, []))
          [plainCoinbase 200, plainCoinbase 300] decoded := by
  obtain ⟨hok, hread⟩ := buildRawBlock_roundTrip BitcoinCrate.ofFormat_followsFormat
    (List.replicate 80 0x11) (plainCoinbase 100) ⟨[plainCoinbase 200, plainCoinbase 300], by decide⟩
  obtain ⟨rawBlock, hraw⟩ := Except.exists_of_isOk (hok.mpr (by decide +kernel))
  exact ⟨rawBlock, hraw, hread rawBlock hraw⟩

end AzcoinPool
