import AzcoinPool.Coin.TemplateMapper

/-!
# The split of the coinbase

The mapper cuts the serialized coinbase at the first occurrence of an eight-byte placeholder, and a
miner puts its extranonces into the cut. The first occurrence starts behind the first byte of the
coinbase script, whatever the template holds (`lt_of_placeholder`), and the one the mapper appended
ends the script, so the cut lies inside the script and the rest of the transaction stays as it is
(`coinbaseParts_decode`).
-/

open Bitcoin

namespace AzcoinPool

/-! ## The serialized coinbase -/

/-- The coinbase in front of the length of its script. -/
def coinbaseHead : Bytes :=
  version.encode 1 ++ (PrefixCodec.encodeVarInt 1 ++ outPoint.encode OutPoint.null)

/-- The coinbase behind its script. -/
def coinbaseTail (outs : List TxOut) : Bytes :=
  PrefixCodec.u32.encode 0xffffffff ++ (outputs.encode outs ++ PrefixCodec.u32.encode 0)

/-- A transaction with the coinbase's one input, and a given script and outputs. -/
def coinbaseOf (scriptSig : Bytes) (outs : List TxOut) (witness : List Bytes) : Transaction :=
  ⟨1, 0, [⟨OutPoint.null, scriptSig, 0xffffffff, witness⟩], outs⟩

theorem legacy_encode_coinbaseOf (scriptSig : Bytes) (outs : List TxOut) (witness : List Bytes) :
    legacy.encode (coinbaseOf scriptSig outs witness) =
      coinbaseHead ++ PrefixCodec.encodeVarInt scriptSig.length ++ scriptSig ++
        coinbaseTail outs := by
  have hin : (inputs.encode [((OutPoint.null, scriptSig), (0xffffffff : UInt32))] : Bytes) =
      PrefixCodec.encodeVarInt 1 ++ (outPoint.encode OutPoint.null ++
        (PrefixCodec.encodeVarInt scriptSig.length ++ scriptSig) ++
          PrefixCodec.u32.encode 0xffffffff) :=
    congrArg _ (List.append_nil _)
  rw [legacy_encode]
  simp only [coinbaseOf, List.map_cons, List.map_nil, TxIn.bare, hin, coinbaseHead, coinbaseTail,
    List.append_assoc]

theorem inputs_valid_coinbase {scriptSig : Bytes} (h : scriptSig.length < 2 ^ 64) :
    inputs.Valid [((OutPoint.null, scriptSig), (0xffffffff : UInt32))] := by
  refine ⟨by simp, fun i hi => ?_⟩
  rw [List.mem_singleton] at hi
  subst hi
  exact ⟨⟨trivial, h⟩, trivial⟩

theorem legacy_valid_coinbaseOf {scriptSig : Bytes} {outs : List TxOut}
    (hs : scriptSig.length < 2 ^ 64) (ho : outputs.Valid outs) :
    legacy.Valid (coinbaseOf scriptSig outs []) := by
  refine ⟨⟨inputs_valid_coinbase hs, ho⟩, by simp [coinbaseOf], fun i hi => ?_⟩
  rw [coinbaseOf, List.mem_singleton] at hi
  rw [hi]

/-- The witness of a coinbase with a commitment. -/
theorem witness_valid_reserved : witness.Valid [List.replicate 32 0] := by
  refine ⟨by simp, fun w hw => ?_⟩
  rw [List.mem_singleton] at hw
  subst hw
  change (List.replicate 32 (0 : UInt8)).length < 2 ^ 64
  decide

theorem transaction_valid_coinbaseOf {scriptSig : Bytes} {outs : List TxOut}
    (hs : scriptSig.length < 2 ^ 64) (ho : outputs.Valid outs) {witness : List Bytes}
    (hw : witness = [] ∨ witness = [List.replicate 32 0]) :
    transaction.Valid (coinbaseOf scriptSig outs witness) := by
  rcases hw with rfl | rfl
  · exact .inr (legacy_valid_coinbaseOf hs ho)
  · refine .inl ⟨⟨inputs_valid_coinbase hs, ho, fun i hi => ?_⟩, rfl⟩
    rw [coinbaseOf, List.mem_singleton] at hi
    subst hi
    exact witness_valid_reserved

/-! ## Where the placeholder can occur -/

theorem not_mem_placeholder_of_mem_head : ∀ b ∈ coinbaseHead, b ∉ sv1ExtranoncePlaceholder := by
  decide +kernel

theorem length_coinbaseHead : coinbaseHead.length = 41 := by decide +kernel

theorem not_mem_placeholder_of_le {b : UInt8} (h : b ≤ 9) : b ∉ sv1ExtranoncePlaceholder := by
  have h9 : b.toNat ≤ 9 := h
  intro hb
  simp only [sv1ExtranoncePlaceholder, List.mem_cons, List.not_mem_nil, or_false] at hb
  rcases hb with rfl | rfl | rfl | rfl | rfl | rfl | rfl | rfl <;> exact absurd h9 (by decide)

/-- A length is at most five bytes, or the marker `0xff` and eight bytes. -/
theorem encodeVarInt_cases (n : Nat) : (PrefixCodec.encodeVarInt n).length ≤ 5 ∨
    PrefixCodec.encodeVarInt n = 0xff :: Endian.leBytes 8 n := by
  rw [PrefixCodec.encodeVarInt]
  split
  · exact .inl (by simp)
  · split
    · exact .inl (by simp)
    · split
      · exact .inl (by simp)
      · exact .inr rfl

/-- An occurrence of the placeholder in a serialized coinbase starts behind the first byte of the
script: none of the bytes up to there is in the placeholder, but for those of the script's length,
and a length that spells the placeholder is larger than any allocation. -/
theorem lt_of_placeholder {len : Nat} {op : UInt8} {rest t : Bytes} {i : Nat}
    (hlen : len < 2 ^ 63) (hop : op ≤ 9)
    (h : (coinbaseHead ++ PrefixCodec.encodeVarInt len ++ op :: rest).drop i =
      sv1ExtranoncePlaceholder ++ t) :
    41 + (PrefixCodec.encodeVarInt len).length < i := by
  have hsize : sv1ExtranoncePlaceholder.length = 8 := rfl
  have hhead := length_coinbaseHead
  -- the script's first byte is in no occurrence
  have hopAt : ¬(i ≤ 41 + (PrefixCodec.encodeVarInt len).length ∧
      41 + (PrefixCodec.encodeVarInt len).length < i + 8) := by
    rintro ⟨hi, hj⟩
    obtain ⟨x, hx, hget⟩ := mem_of_window h hi hj
    rw [List.getElem?_append_right (by simp [hhead]), List.length_append, hhead,
      Nat.sub_self] at hget
    exact not_mem_placeholder_of_le hop (Option.some.inj hget ▸ hx)
  by_contra hle
  by_cases hi : i < 41
  · obtain ⟨x, hx, hget⟩ := mem_of_window h (Nat.le_refl i) (by omega)
    rw [List.append_assoc, List.getElem?_append_left (by omega)] at hget
    exact not_mem_placeholder_of_mem_head x (List.mem_of_getElem? hget) hx
  rcases encodeVarInt_cases len with hshort | hlong
  · omega
  rw [hlong, List.length_cons, Endian.length_leBytes] at hopAt hle
  rw [hlong] at h
  obtain rfl | rfl : i = 41 ∨ i = 42 := by omega
  · have hdrop : (coinbaseHead ++ 0xff :: Endian.leBytes 8 len ++ op :: rest).drop 41 =
        0xff :: (Endian.leBytes 8 len ++ op :: rest) := by
      rw [List.append_assoc, ← hhead, List.drop_left]
      rfl
    rw [hdrop] at h
    exact absurd (List.cons.inj h).1 (by decide)
  · have hdrop : (coinbaseHead ++ 0xff :: Endian.leBytes 8 len ++ op :: rest).drop 42 =
        Endian.leBytes 8 len ++ op :: rest := by
      rw [List.append_assoc, show 42 = coinbaseHead.length + 1 by rw [hhead], List.drop_append]
      simp
    rw [hdrop] at h
    have hbytes := (List.append_inj h (by simp [hsize])).1
    have hval := Endian.leNat_leBytes (show len < 256 ^ 8 by omega)
    rw [hbytes, show Endian.leNat sv1ExtranoncePlaceholder = 0xefbeadde0cb0cefa by decide] at hval
    omega

/-! ## The cut -/

/-- Where a script ends in the placeholder, the first occurrence lies inside the script. -/
theorem findWindow_coinbase {op : UInt8} {pre : Bytes} (outs : List TxOut) (hop : op ≤ 9)
    (hlen : (op :: (pre ++ sv1ExtranoncePlaceholder)).length < 2 ^ 63) :
    let script := op :: (pre ++ sv1ExtranoncePlaceholder)
    let front := coinbaseHead ++ PrefixCodec.encodeVarInt script.length
    ∃ m, findWindow sv1ExtranoncePlaceholder (front ++ script ++ coinbaseTail outs) =
      some (front.length + m) ∧ m + 8 ≤ script.length := by
  intro script front
  have hsize : sv1ExtranoncePlaceholder.length = 8 := rfl
  have hfront : front.length = 41 + (PrefixCodec.encodeVarInt script.length).length := by
    rw [List.length_append, length_coinbaseHead]
  have hsplit : front ++ script ++ coinbaseTail outs =
      front ++ op :: pre ++ sv1ExtranoncePlaceholder ++ coinbaseTail outs := by
    simp [script]
  -- not behind the occurrence that ends the script, and not in front of the script
  obtain ⟨i, hi, hle⟩ :=
    @findWindow_le _ _ sv1ExtranoncePlaceholder (coinbaseTail outs) (front ++ op :: pre)
  rw [← hsplit] at hi
  obtain ⟨t, ht⟩ := findWindow_sound hi
  have hcons : front ++ script ++ coinbaseTail outs =
      front ++ op :: (pre ++ sv1ExtranoncePlaceholder ++ coinbaseTail outs) := by
    simp [script]
  rw [hcons] at ht
  have hlt := lt_of_placeholder hlen hop ht
  obtain ⟨m, rfl⟩ := Nat.exists_eq_add_of_le (Nat.le_of_lt (hfront ▸ hlt))
  refine ⟨m, hi, ?_⟩
  simp only [List.length_append, List.length_cons] at hle
  simp only [script, List.length_cons, List.length_append, hsize]
  omega

/-- The outputs of the coinbase. -/
def coinbaseOutputs (coinbaseValue : UInt64) (payoutScriptPubkey : Bytes)
    (commitment : Option Bytes) : List TxOut :=
  ⟨coinbaseValue, payoutScriptPubkey⟩ :: commitment.toList.map fun script => ⟨0, script⟩

theorem coinbaseOutputs_valid {payoutScriptPubkey : Bytes} {commitment : Option Bytes}
    (coinbaseValue : UInt64) (hpayout : payoutScriptPubkey.length < 2 ^ 63)
    (hcommitment : ∀ script ∈ commitment, script.length < 2 ^ 63) :
    outputs.Valid (coinbaseOutputs coinbaseValue payoutScriptPubkey commitment) := by
  refine ⟨by cases commitment <;> simp [coinbaseOutputs], fun o ho => ?_⟩
  rw [coinbaseOutputs, List.mem_cons, List.mem_map] at ho
  rcases ho with rfl | ⟨script, hmem, rfl⟩
  · exact Nat.lt_trans hpayout (by decide)
  · exact Nat.lt_trans (hcommitment script (Option.mem_toList.mp hmem)) (by decide)

theorem coinbaseTransaction_eq (inputs : CoinbaseBuildInputs) : ∃ witness,
    (witness = [] ∨ witness = [List.replicate 32 0]) ∧
    coinbaseTransaction inputs =
      coinbaseOf (buildCoinbaseScriptSig inputs.height inputs.coinbaseAuxFlags)
        (coinbaseOutputs inputs.coinbaseValue inputs.payoutScriptPubkey
          inputs.defaultWitnessCommitment) witness := by
  obtain ⟨height, value, payout, flags, commitment⟩ := inputs
  cases commitment with
  | none => exact ⟨_, .inl rfl, rfl⟩
  | some script => exact ⟨_, .inr rfl, rfl⟩

/-- What was serialized is read back, and without its witness it is the legacy serialization. -/
theorem serializeNoWitness_of_deserialize {bitcoin : BitcoinCrate}
    (hbitcoin : bitcoin.FollowsFormat) {script : Bytes} {outs : List TxOut} {witness : List Bytes}
    (hscript : script.length < 2 ^ 64) (houts : outputs.Valid outs)
    (hwitness : witness = [] ∨ witness = [List.replicate 32 0]) {tx : Transaction}
    (h : bitcoin.deserialize (bitcoin.serialize (coinbaseOf script outs witness)) = .ok tx) :
    serializeNoWitness bitcoin tx = coinbaseHead ++ PrefixCodec.encodeVarInt script.length ++
      script ++ coinbaseTail outs := by
  have hvalid := transaction_valid_coinbaseOf hscript houts hwitness
  rw [hbitcoin.serialize hvalid, hbitcoin.deserialize,
    transaction.decode_eq_some_nil.mpr ⟨hvalid, rfl⟩] at h
  cases h
  have hin : inputs.Valid ((coinbaseOf script outs witness).input.map TxIn.bare) :=
    inputs_valid_coinbase hscript
  have hout : outputs.Valid (coinbaseOf script outs witness).output := houts
  rw [← legacy_encode_coinbaseOf script outs witness, legacy_encode, serializeNoWitness,
    hbitcoin.encodeVersion, hbitcoin.encodeInput hin, hbitcoin.encodeOutput hout,
    hbitcoin.encodeLockTime, List.append_assoc]

/-- The script of the coinbase the mapper cuts: the placeholder stands behind the flags. -/
def placeholderScript (height : UInt64) (flags : Option Bytes) : Bytes :=
  buildCoinbaseScriptSig height (some (flags.getD [] ++ sv1ExtranoncePlaceholder))

theorem placeholderScript_eq (height : UInt64) (flags : Option Bytes) :
    ∃ op pre, op ≤ 9 ∧ pre.length ≤ 14 + (flags.getD []).length ∧
      placeholderScript height flags = op :: (pre ++ sv1ExtranoncePlaceholder) := by
  obtain ⟨op, pre, hop, hpre, hscript⟩ := buildCoinbaseScriptSig_eq height
    (flags.getD [] ++ sv1ExtranoncePlaceholder) (by simp [sv1ExtranoncePlaceholder])
  refine ⟨op, pre ++ flags.getD [], hop, ?_, ?_⟩
  · rw [List.length_append]
    omega
  · rw [placeholderScript, hscript, List.append_assoc]

theorem length_placeholderScript_lt {flags : Option Bytes}
    (hflags : (flags.getD []).length < 2 ^ 62) (height : UInt64) :
    (placeholderScript height flags).length < 2 ^ 63 := by
  obtain ⟨op, pre, -, hpre, hscript⟩ := placeholderScript_eq height flags
  have hsize : sv1ExtranoncePlaceholder.length = 8 := rfl
  simp only [hscript, List.length_cons, List.length_append, hsize]
  omega

/-- The cut is at the first occurrence of the placeholder, and that is inside the script. -/
theorem buildCoinbaseParts_cut {bitcoin : BitcoinCrate} (hbitcoin : bitcoin.FollowsFormat)
    {template : BlockTemplate} {payoutScriptPubkey : Bytes} {flags commitment : Option Bytes}
    {part1 part2 : Bytes} (hpayout : payoutScriptPubkey.length < 2 ^ 63)
    (hflags : (flags.getD []).length < 2 ^ 62)
    (hcommitment : ∀ script ∈ commitment, script.length < 2 ^ 63)
    (h : buildCoinbaseParts bitcoin template payoutScriptPubkey flags commitment =
      .ok (part1, part2)) :
    let script := placeholderScript template.height flags
    let front := coinbaseHead ++ PrefixCodec.encodeVarInt script.length
    let outs := coinbaseOutputs template.coinbasevalue payoutScriptPubkey commitment
    ∃ m, findWindow sv1ExtranoncePlaceholder (front ++ script ++ coinbaseTail outs) =
        some (front.length + m) ∧
      m + 8 ≤ script.length ∧ part1 = front ++ script.take m ∧
      part2 = script.drop (m + 8) ++ coinbaseTail outs := by
  intro script front outs
  rw [buildCoinbaseParts] at h
  obtain ⟨txBytes, hbuild, h⟩ := Except.bind_eq_ok.mp h
  obtain ⟨tx, hdeserialize, h⟩ := Except.bind_eq_ok.mp h
  have hlen : script.length < 2 ^ 63 := length_placeholderScript_lt hflags template.height
  -- the script ends in the placeholder and starts with a small opcode
  obtain ⟨op, pre, hop, -, hscript⟩ :
      ∃ op pre, op ≤ 9 ∧ _ ∧ script = op :: (pre ++ sv1ExtranoncePlaceholder) :=
    placeholderScript_eq template.height flags
  have houts := coinbaseOutputs_valid template.coinbasevalue hpayout hcommitment
  obtain ⟨m, hfind, hm⟩ := findWindow_coinbase outs hop (hscript ▸ hlen)
  rw [← hscript] at hfind hm
  obtain ⟨witness, hwitness, htx⟩ := coinbaseTransaction_eq
    (coinbasePartsInputs template payoutScriptPubkey flags commitment)
  have hserial : txBytes = bitcoin.serialize (coinbaseOf script outs witness) :=
    (eq_serialize_of_buildCoinbaseTransaction hbuild).trans (congrArg bitcoin.serialize htx)
  have hread : bitcoin.deserialize txBytes = .ok tx := Except.mapError_eq_ok.mp hdeserialize
  rw [hserial] at hread
  dsimp only at h
  rw [serializeNoWitness_of_deserialize hbitcoin (Nat.lt_trans hlen (by decide)) houts hwitness
    hread, hfind] at h
  cases h
  refine ⟨m, hfind, hm, ?_, ?_⟩
  · rw [List.append_assoc _ script, List.take_length_add_append,
      List.take_append_of_le_length (by omega)]
  · rw [show sv1ExtranoncePlaceholder.length = 8 from rfl, Nat.add_assoc,
      List.append_assoc _ script, List.drop_length_add_append, List.drop_append_of_le_length hm]

/-! ## What the template's fields decode to -/

/-- The trimmed text of an optional field, when it is there and not blank. -/
def nonBlankText (text : Option Str) : Option String :=
  (text.map fun text => trim text.text).filter (· ≠ "")

/-- The template's witness commitment, when it is there and not blank. -/
def BlockTemplate.commitmentText (template : BlockTemplate) : Option String :=
  nonBlankText template.defaultWitnessCommitment

theorem nonBlankText_eq_none {field : String} {text : Option Str}
    (h : decodeOptionalHex field text = .ok none) : nonBlankText text = none := by
  cases text with
  | none => rfl
  | some text =>
    simp only [decodeOptionalHex] at h
    split at h
    · next hblank => simp [nonBlankText, hblank]
    · cases hfield : decodeHexField field (trim text.text) <;> rw [hfield] at h <;> cases h

theorem nonBlankText_eq_some {field : String} {text : Option Str} {bs : Bytes}
    (h : decodeOptionalHex field text = .ok (some bs)) :
    ∃ t, nonBlankText text = some t ∧ Hex.decode t = .ok bs ∧ (utf8 t).length ≤ isizeMax := by
  cases text with
  | none => cases h
  | some text =>
    simp only [decodeOptionalHex] at h
    split at h
    · cases h
    · next hblank =>
      refine ⟨trim text.text, by simp [nonBlankText, hblank], ?_,
        (length_utf8_trim_le _).trans (length_utf8 _ ▸ text.size_le)⟩
      cases hfield : decodeHexField field (trim text.text) with
      | error e => rw [hfield] at h; cases h
      | ok bs' =>
        rw [hfield] at h
        cases h
        exact decodeHexField_eq_ok.mp hfield

/-- Decoded from a string, an optional field is at most half an allocation. -/
theorem length_of_decodeOptionalHex {field : String} {text : Option Str} {bs : Bytes}
    (h : decodeOptionalHex field text = .ok (some bs)) : bs.length < 2 ^ 62 := by
  obtain ⟨t, -, hdecode, hsize⟩ := nonBlankText_eq_some h
  have hhalf := Hex.length_le_of_decode hdecode
  rw [isizeMax] at hsize
  omega

/-! ## The coinbase a miner completes -/

/-- A transaction pays what the template and the payout script say: one input that spends nothing,
no lock time, the coinbase value to the payout script, and behind it the witness commitment when
the template has one. -/
structure PaysTemplate (template : BlockTemplate) (payoutScriptPubkey : Bytes) (tx : Transaction) :
    Prop where
  input : ∃ scriptSig, tx.input = [⟨OutPoint.null, scriptSig, 0xffffffff, []⟩]
  lockTime : tx.lockTime = 0
  output :
    match template.commitmentText with
    | none => tx.output = [⟨template.coinbasevalue, payoutScriptPubkey⟩]
    | some text => ∃ script, Hex.decode text = .ok script ∧
        tx.output = [⟨template.coinbasevalue, payoutScriptPubkey⟩, ⟨0, script⟩]

/-- The two parts of a mapped job around its script, and what the template's fields decode to. -/
structure CutCoinbase (template : BlockTemplate) (payoutScriptPubkey : Bytes) (job : Job)
    (commitment : Option Bytes) (before after : Bytes) : Prop where
  commitment_eq : decodeOptionalHex "default_witness_commitment"
    template.defaultWitnessCommitment = .ok commitment
  outputs_valid :
    outputs.Valid (coinbaseOutputs template.coinbasevalue payoutScriptPubkey commitment)
  length_lt : before.length + 8 + after.length < 2 ^ 63
  part1_eq : job.coinbasePart1 =
    coinbaseHead ++ PrefixCodec.encodeVarInt (before.length + 8 + after.length) ++ before
  part2_eq : job.coinbasePart2 =
    after ++ coinbaseTail (coinbaseOutputs template.coinbasevalue payoutScriptPubkey commitment)

/-- A mapped job's coinbase is cut at the first occurrence of the placeholder. -/
theorem exists_placeholderCut {bitcoin : BitcoinCrate} (hbitcoin : bitcoin.FollowsFormat)
    {template : BlockTemplate} {payoutScriptPubkey : Slice} {job : Job}
    (hjob : templateToJob bitcoin template payoutScriptPubkey = .ok job) :
    ∃ flags commitment m, decodeCoinbaseAuxFlags template = .ok flags ∧
      (flags.getD []).length < 2 ^ 62 ∧
      let script := placeholderScript template.height flags
      let front := coinbaseHead ++ PrefixCodec.encodeVarInt script.length
      findWindow sv1ExtranoncePlaceholder (front ++ script ++ coinbaseTail
          (coinbaseOutputs template.coinbasevalue payoutScriptPubkey.bytes commitment)) =
        some (front.length + m) ∧ m + 8 ≤ script.length ∧
      CutCoinbase template payoutScriptPubkey.bytes job commitment (script.take m)
        (script.drop (m + 8)) := by
  obtain ⟨flags, commitment, txs, hflags, hcommitment, -, hparts, -⟩ :=
    (MappedJob.of_templateToJob hjob).blockAssembly
  have hpayout : payoutScriptPubkey.bytes.length < 2 ^ 63 := by
    have := payoutScriptPubkey.size_le
    rw [isizeMax] at this
    omega
  have hflagsLen : (flags.getD []).length < 2 ^ 62 := by
    cases flags with
    | none => simp
    | some bs => exact length_of_decodeOptionalHex hflags
  have hcommitmentLen : ∀ script ∈ commitment, script.length < 2 ^ 63 := by
    rintro script rfl
    exact Nat.lt_trans (length_of_decodeOptionalHex hcommitment) (by decide)
  obtain ⟨m, hfind, hm, hpart1, hpart2⟩ :=
    buildCoinbaseParts_cut hbitcoin hpayout hflagsLen hcommitmentLen hparts
  have hlen := length_placeholderScript_lt hflagsLen template.height
  -- the three pieces are the script
  have hsum : ((placeholderScript template.height flags).take m).length + 8 +
      ((placeholderScript template.height flags).drop (m + 8)).length =
        (placeholderScript template.height flags).length := by
    simp only [List.length_take, List.length_drop]
    omega
  refine ⟨flags, commitment, m, hflags, hflagsLen, hfind, hm, hcommitment,
    coinbaseOutputs_valid _ hpayout hcommitmentLen, by rw [hsum]; exact hlen, ?_, hpart2⟩
  rw [hsum]
  exact hpart1

theorem exists_cutCoinbase {bitcoin : BitcoinCrate} (hbitcoin : bitcoin.FollowsFormat)
    {template : BlockTemplate} {payoutScriptPubkey : Slice} {job : Job}
    (hjob : templateToJob bitcoin template payoutScriptPubkey = .ok job) :
    ∃ commitment before after,
      CutCoinbase template payoutScriptPubkey.bytes job commitment before after := by
  obtain ⟨_, commitment, _, -, -, -, -, hcut⟩ := exists_placeholderCut hbitcoin hjob
  exact ⟨commitment, _, _, hcut⟩

/-- Filled with eight bytes, the cut coinbase is the legacy serialization of a transaction with the
filled script. -/
theorem CutCoinbase.decode {template : BlockTemplate} {payoutScriptPubkey : Bytes} {job : Job}
    {commitment : Option Bytes} {before after : Bytes}
    (hcut : CutCoinbase template payoutScriptPubkey job commitment before after) {x : Bytes}
    (hx : x.length = 8) {bitcoin : BitcoinCrate} (hbitcoin : bitcoin.FollowsFormat) :
    let outs := coinbaseOutputs template.coinbasevalue payoutScriptPubkey commitment
    let tx := coinbaseOf (before ++ x ++ after) outs []
    legacy.decode (job.coinbasePart1 ++ x ++ job.coinbasePart2) = some (tx, []) ∧
      bitcoin.deserialize (job.coinbasePart1 ++ x ++ job.coinbasePart2) = .ok tx := by
  intro outs tx
  have hlen := hcut.length_lt
  have hscript : (before ++ x ++ after).length = before.length + 8 + after.length := by
    simp only [List.length_append, hx]
  have hbytes : job.coinbasePart1 ++ x ++ job.coinbasePart2 = legacy.encode tx := by
    rw [legacy_encode_coinbaseOf, hscript, hcut.part1_eq, hcut.part2_eq]
    simp only [List.append_assoc, outs]
  have hvalid : legacy.Valid tx := legacy_valid_coinbaseOf (by omega) hcut.outputs_valid
  have htransaction : transaction.encode tx = legacy.encode tx := rfl
  rw [hbytes, legacy.decode_eq_some_nil, hbitcoin.deserialize, transaction.decode_eq_some_nil]
  exact ⟨⟨hvalid, rfl⟩, .inr hvalid, htransaction.symm⟩

/-- Whatever eight bytes the cut is filled with, the coinbase decodes completely, without witness
data, to a transaction that pays what the template says. -/
theorem coinbaseParts_decode {bitcoin : BitcoinCrate} (hbitcoin : bitcoin.FollowsFormat)
    {template : BlockTemplate} {payoutScriptPubkey : Slice} {job : Job}
    (hjob : templateToJob bitcoin template payoutScriptPubkey = .ok job) {x : Bytes}
    (hx : x.length = 8) :
    ∃ tx, legacy.decode (job.coinbasePart1 ++ x ++ job.coinbasePart2) = some (tx, []) ∧
      bitcoin.deserialize (job.coinbasePart1 ++ x ++ job.coinbasePart2) = .ok tx ∧
      PaysTemplate template payoutScriptPubkey.bytes tx := by
  obtain ⟨commitment, before, after, hcut⟩ := exists_cutCoinbase hbitcoin hjob
  obtain ⟨hdecode, hdeserialize⟩ := hcut.decode hx hbitcoin
  refine ⟨_, hdecode, hdeserialize, ⟨_, rfl⟩, rfl, ?_⟩
  have hcommitment := hcut.commitment_eq
  cases commitment with
  | none =>
    rw [BlockTemplate.commitmentText, nonBlankText_eq_none hcommitment]
    rfl
  | some script =>
    obtain ⟨text, htext, hdecode, -⟩ := nonBlankText_eq_some hcommitment
    rw [BlockTemplate.commitmentText, htext]
    exact ⟨script, hdecode, rfl⟩

/-- Whatever the cut of a mapped job is filled with, a transaction it reads as has an input. -/
theorem input_ne_nil_of_templateToJob {bitcoin : BitcoinCrate} (hbitcoin : bitcoin.FollowsFormat)
    {template : BlockTemplate} {payoutScriptPubkey : Slice} {job : Job}
    (hjob : templateToJob bitcoin template payoutScriptPubkey = .ok job) {rest : Bytes}
    {tx : Transaction} (h : bitcoin.deserialize (job.coinbasePart1 ++ rest) = .ok tx) :
    tx.input ≠ [] := by
  obtain ⟨commitment, before, after, hcut⟩ := exists_cutCoinbase hbitcoin hjob
  have hhead : coinbaseHead = version.encode 1 ++ 1 :: outPoint.encode OutPoint.null := rfl
  rw [hbitcoin.deserialize, hcut.part1_eq, hhead] at h
  simp only [List.append_assoc, List.cons_append] at h
  exact input_ne_nil_of_decode (by decide) h

/-- The coinbase of the fixture, with a witness commitment and the extranonces of the mapper's
tests. -/
theorem coinbaseParts_decode_fixture :
    let template := { fixtureTemplate [] with
      defaultWitnessCommitment := some ⟨"6a24aa21a9ed11223344556677889900", by decide⟩ }
    ∃ job, templateToJob .ofFormat template fixturePayoutScript = .ok job ∧
      ∃ tx, legacy.decode (job.coinbasePart1 ++ [0xaa, 0xbb, 0xcc, 0xdd, 0x11, 0x22, 0x33, 0x44] ++
          job.coinbasePart2) = some (tx, []) ∧
        PaysTemplate template fixturePayoutScript.bytes tx := by
  intro template
  have hok : (templateToJob .ofFormat template fixturePayoutScript).isOk = true := by
    decide +kernel
  obtain ⟨job, hjob⟩ := Except.exists_of_isOk hok
  obtain ⟨tx, hdecode, -, hpays⟩ := coinbaseParts_decode BitcoinCrate.ofFormat_followsFormat hjob
    (show [0xaa, 0xbb, 0xcc, 0xdd, 0x11, 0x22, 0x33, 0x44].length = 8 from rfl)
  exact ⟨job, hjob, tx, hdecode, hpays⟩

end AzcoinPool
