import AzcoinPool.Lib.Bytes
import AzcoinPool.Lib.Codec

/-!
# The Bitcoin transaction format

The transaction with its inputs, outputs and witnesses, and its wire format as a `PrefixCodec`: the
legacy serialization (version, inputs, outputs, lock time) for a transaction with inputs and no
witness, and the one with the segregated-witness marker and flag otherwise. The format is built from
the combinators of `PrefixCodec`, so that reading and writing are inverse needs no proof of its own
(`Bitcoin.transaction`, `Bitcoin.block`).
-/

namespace Bitcoin

open PrefixCodec

structure OutPoint where
  txid : Bytes32
  vout : UInt32
  deriving DecidableEq

/-- The outpoint a coinbase input spends. -/
def OutPoint.null : OutPoint := ⟨Bytes32.fill 0, 0xffffffff⟩

structure TxIn where
  previousOutput : OutPoint
  scriptSig : Bytes
  sequence : UInt32
  witness : List Bytes
  deriving DecidableEq

structure TxOut where
  value : UInt64
  scriptPubkey : Bytes
  deriving DecidableEq

structure Transaction where
  version : Int32
  lockTime : UInt32
  input : List TxIn
  output : List TxOut
  deriving DecidableEq

/-! ## Inputs -/

/-- What the input list of the wire format holds of an input: all but the witness. -/
abbrev BareIn := (OutPoint × Bytes) × UInt32

def TxIn.bare (i : TxIn) : BareIn := ((i.previousOutput, i.scriptSig), i.sequence)

def TxIn.ofBare (b : BareIn) (w : List Bytes) : TxIn := ⟨b.1.1, b.1.2, b.2, w⟩

@[simp] theorem TxIn.bare_ofBare (b : BareIn) (w : List Bytes) : (ofBare b w).bare = b := rfl

@[simp] theorem TxIn.ofBare_bare (i : TxIn) : ofBare i.bare i.witness = i := rfl

@[simp] theorem TxIn.witness_ofBare (b : BareIn) (w : List Bytes) : (ofBare b w).witness = w := rfl

theorem map_bare_zipWith {bs : List BareIn} {ws : List (List Bytes)} (h : ws.length = bs.length) :
    (List.zipWith TxIn.ofBare bs ws).map TxIn.bare = bs := by
  induction bs generalizing ws with
  | nil => rfl
  | cons b bs ih =>
    cases ws with
    | nil => simp at h
    | cons w ws => simp [ih (by simpa using h)]

theorem map_witness_zipWith {bs : List BareIn} {ws : List (List Bytes)}
    (h : ws.length = bs.length) : (List.zipWith TxIn.ofBare bs ws).map TxIn.witness = ws := by
  induction bs generalizing ws with
  | nil => simpa [eq_comm] using h
  | cons b bs ih =>
    cases ws with
    | nil => simp at h
    | cons w ws => simp [ih (by simpa using h)]

theorem zipWith_bare_witness (is : List TxIn) :
    List.zipWith TxIn.ofBare (is.map TxIn.bare) (is.map TxIn.witness) = is := by
  induction is with
  | nil => rfl
  | cons i is ih => simp [ih]

/-- Inputs without witnesses are determined by their bare parts. -/
theorem map_ofBare_nil {is : List TxIn} (h : ∀ i ∈ is, i.witness = []) :
    (is.map TxIn.bare).map (TxIn.ofBare · []) = is := by
  rw [List.map_map]
  refine (List.map_congr_left fun i hi => ?_).trans (List.map_id is)
  rw [Function.comp_apply, ← h i hi, TxIn.ofBare_bare, id]

/-! ## The fields' formats -/

def bytes32 : PrefixCodec Bytes32 :=
  (raw 32).map (fun bs => (Bytes32.ofList? bs).getD (Bytes32.fill 0)) Bytes32.bytes (fun _ => True)
    (fun bs hbs => by
      have hlen : bs.length = 32 := hbs
      exact ⟨trivial, by simp [Bytes32.ofList?, hlen]⟩)
    (fun b _ => ⟨b.length_eq, by simp⟩)

def version : PrefixCodec Int32 :=
  u32.map UInt32.toInt32 Int32.toUInt32 (fun _ => True) (fun _ _ => ⟨trivial, by simp⟩)
    (fun _ _ => ⟨trivial, by simp⟩)

def outPoint : PrefixCodec OutPoint :=
  (bytes32.pair u32).map (fun p => ⟨p.1, p.2⟩) (fun o => (o.txid, o.vout)) (fun _ => True)
    (fun _ _ => ⟨trivial, rfl⟩) (fun _ _ => ⟨⟨trivial, trivial⟩, rfl⟩)

def bareIn : PrefixCodec BareIn := (outPoint.pair bytes).pair u32

def txOut : PrefixCodec TxOut :=
  (u64.pair bytes).map (fun p => ⟨p.1, p.2⟩) (fun o => (o.value, o.scriptPubkey))
    (fun o => o.scriptPubkey.length < 2 ^ 64) (fun _ h => ⟨h.2, rfl⟩)
    (fun _ h => ⟨⟨trivial, h⟩, rfl⟩)

def inputs : PrefixCodec (List BareIn) := vec bareIn

def outputs : PrefixCodec (List TxOut) := vec txOut

/-- The witness of one input: a counted list of byte strings. -/
def witness : PrefixCodec (List Bytes) := vec bytes

/-! ## The transaction -/

/-- The legacy serialization, for a transaction with inputs and without witnesses. -/
def legacy : PrefixCodec Transaction :=
  (((version.pair inputs).pair (outputs.pair u32)).restrict fun p => !p.1.2.isEmpty).map
    (fun p => ⟨p.1.1, p.2.2, p.1.2.map (TxIn.ofBare · []), p.2.1⟩)
    (fun tx => ((tx.version, tx.input.map TxIn.bare), (tx.output, tx.lockTime)))
    (fun tx => (inputs.Valid (tx.input.map TxIn.bare) ∧ outputs.Valid tx.output) ∧
      tx.input ≠ [] ∧ ∀ i ∈ tx.input, i.witness = [])
    (by
      rintro ⟨⟨v, is⟩, os, lt⟩ ⟨⟨⟨-, his⟩, hos, -⟩, hne⟩
      have hbare : (is.map (TxIn.ofBare · [])).map TxIn.bare = is := by simp [Function.comp_def]
      simp only [hbare]
      refine ⟨⟨⟨his, hos⟩, by simpa using hne, fun i hi => ?_⟩, trivial⟩
      obtain ⟨b, -, rfl⟩ := List.mem_map.mp hi
      rfl)
    (by
      rintro ⟨v, lt, is, os⟩ ⟨⟨his, hos⟩, hne, hw⟩
      exact ⟨⟨⟨⟨trivial, his⟩, hos, trivial⟩, by simpa using hne⟩,
        by simp only [map_ofBare_nil hw]⟩)

/-- A transaction needs the segregated-witness serialization when an input has a witness, or when
it has no input, since the legacy form of an empty input list reads as the marker. -/
def Transaction.usesSegwit (tx : Transaction) : Bool :=
  tx.input.isEmpty || tx.input.any (!·.witness.isEmpty)

theorem Transaction.usesSegwit_eq (tx : Transaction) :
    tx.usesSegwit = ((tx.input.map TxIn.bare).isEmpty ||
      (tx.input.map TxIn.witness).any (!·.isEmpty)) := by
  simp [usesSegwit, Function.comp_def]

/-- The segregated-witness serialization: marker and flag behind the version, and one witness for
each input behind the outputs. -/
def segwit : PrefixCodec Transaction :=
  ((((version.pair (tag [0x00, 0x01])).pair (inputs.pair outputs)).seq fun p =>
      (PrefixCodec.replicate witness p.2.1.length).pair u32).restrict fun p =>
        p.1.2.1.isEmpty || p.2.1.any (!·.isEmpty)).map
    (fun p => ⟨p.1.1.1, p.2.2, List.zipWith TxIn.ofBare p.1.2.1 p.2.1, p.1.2.2⟩)
    (fun tx => (((tx.version, ()), (tx.input.map TxIn.bare, tx.output)),
      (tx.input.map TxIn.witness, tx.lockTime)))
    (fun tx => (inputs.Valid (tx.input.map TxIn.bare) ∧ outputs.Valid tx.output ∧
      ∀ i ∈ tx.input, witness.Valid i.witness) ∧ tx.usesSegwit = true)
    (by
      rintro ⟨⟨⟨v, ⟨⟩⟩, is, os⟩, ws, lt⟩ ⟨⟨⟨-, his, hos⟩, ⟨hlen, hws⟩, -⟩, hsw⟩
      have hb := map_bare_zipWith hlen
      have hw := map_witness_zipWith hlen
      refine ⟨⟨⟨by rwa [hb], hos, fun i hi => ?_⟩, ?_⟩, by simp only [hb, hw]⟩
      · exact hws _ (hw ▸ List.mem_map_of_mem hi)
      · rw [Transaction.usesSegwit_eq, hb, hw]
        exact hsw)
    (by
      rintro ⟨v, lt, is, os⟩ ⟨⟨his, hos, hws⟩, hsw⟩
      have hz := zipWith_bare_witness is
      refine ⟨⟨⟨⟨⟨trivial, trivial⟩, his, hos⟩, ⟨by simp, ?_⟩, trivial⟩, ?_⟩, by simp only [hz]⟩
      · exact List.forall_mem_map.mpr hws
      · rw [Transaction.usesSegwit_eq] at hsw
        exact hsw)

@[simp] theorem length_version (v : Int32) : (version.encode v).length = 4 :=
  Endian.length_leBytes _ _

theorem legacy_encode (tx : Transaction) : legacy.encode tx =
    version.encode tx.version ++ inputs.encode (tx.input.map TxIn.bare) ++
      (outputs.encode tx.output ++ u32.encode tx.lockTime) := rfl

theorem segwit_encode (tx : Transaction) : segwit.encode tx =
    version.encode tx.version ++ [0x00, 0x01] ++
      (inputs.encode (tx.input.map TxIn.bare) ++ outputs.encode tx.output) ++
      ((tx.input.map TxIn.witness).flatMap witness.encode ++ u32.encode tx.lockTime) := rfl

/-- The two serializations differ in the byte behind the version: the marker is zero, and a nonempty
input list starts with its nonzero length. -/
theorem segwit_ne_legacy (a b : Transaction) (r s : Bytes) (hb : legacy.Valid b) :
    segwit.encode a ++ r ≠ legacy.encode b ++ s := by
  intro h
  rw [segwit_encode, legacy_encode] at h
  simp only [List.append_assoc] at h
  have htail := (List.append_inj h (by simp [length_version])).2
  obtain ⟨x, xs, hx, hne⟩ := encodeVarInt_eq_cons (n := (b.input.map TxIn.bare).length)
    (by simpa using List.length_pos_iff.mpr hb.2.1)
  simp only [inputs, vec_encode, hx] at htail
  exact hne (List.cons.inj htail).1.symm

/-- The transaction on the wire. -/
def transaction : PrefixCodec Transaction :=
  segwit.orElse legacy Transaction.usesSegwit (fun _ h => h.2)
    (fun tx h => by
      obtain ⟨-, hne, hw⟩ := h
      simpa [Transaction.usesSegwit, hne] using hw)
    (fun a b r s _ hb => segwit_ne_legacy a b r s hb)

/-- A byte other than zero behind the version is the number of inputs. -/
theorem input_ne_nil_of_decode {v : Int32} {b : UInt8} {bs rest : List UInt8} {tx : Transaction}
    (hb : b ≠ 0) (h : transaction.decode (version.encode v ++ b :: bs) = some (tx, rest)) :
    tx.input ≠ [] := by
  intro hnil
  obtain ⟨-, heq⟩ := transaction.of_decode h
  have hsegwit : transaction.encode tx = segwit.encode tx :=
    if_pos (by rw [Transaction.usesSegwit, hnil]; rfl)
  rw [hsegwit, segwit_encode] at heq
  simp only [List.append_assoc] at heq
  have htail := (List.append_inj heq (by simp only [length_version])).2
  exact hb (List.cons.inj htail).1

theorem witness_valid_of_transaction_valid {tx : Transaction} (h : transaction.Valid tx) :
    ∀ i ∈ tx.input, witness.Valid i.witness := by
  rcases h with ⟨⟨-, -, hws⟩, -⟩ | ⟨-, -, hnil⟩
  · exact hws
  · intro i hi
    rw [hnil i hi]
    exact ⟨by decide, nofun⟩

/-- A transaction can be written with another witness of its first input. -/
theorem transaction_valid_of_witness {tx : Transaction} {i : TxIn} {is : List TxIn}
    {w : List Bytes} (h : transaction.Valid tx) (hinput : tx.input = i :: is)
    (hw : witness.Valid w) (hne : w ≠ []) :
    transaction.Valid { tx with input := { i with witness := w } :: is } := by
  have hws := witness_valid_of_transaction_valid h
  obtain ⟨hin, hout⟩ : inputs.Valid (tx.input.map TxIn.bare) ∧ outputs.Valid tx.output := by
    rcases h with ⟨⟨hin, hout, -⟩, -⟩ | ⟨hbare, -⟩
    · exact ⟨hin, hout⟩
    · exact hbare
  rw [hinput] at hin hws
  refine .inl ⟨⟨hin, hout, ?_⟩, ?_⟩
  · exact List.forall_mem_cons.mpr ⟨hw, (List.forall_mem_cons.mp hws).2⟩
  · simp [Transaction.usesSegwit, hne]

/-! ## The block -/

/-- The block on the wire: the eighty bytes of its header and its transactions. -/
def block : PrefixCodec (List UInt8 × List Transaction) := (raw 80).pair (vec transaction)

theorem block_encode (header : List UInt8) (txs : List Transaction) : block.encode (header, txs) =
    header ++ (encodeVarInt txs.length ++ txs.flatMap transaction.encode) := rfl

end Bitcoin
