import AzcoinPool.Coin.TemplateMapper
import AzcoinPool.Lib.HexText

/-!
# The template adapter

`template_adapter.rs` of the SV2 scaffold: the daemon's template in the scaffold's own form, with a
hexadecimal decoder of its own and checked conversions of the integers. The decoder trims and then
accepts what `hex::decode` accepts, with the same bytes (`decodeHex_eq_ok_iff`), and a conversion
that succeeds keeps the value (`u32TryFrom_eq_some_iff`).
-/

namespace AzcoinPool.Sv2

/-- `AzcoinJobTemplate`. -/
structure AzcoinJobTemplate where
  jobId : String
  prevHash : Bytes
  version : UInt32
  nbits : UInt32
  ntime : UInt32
  height : UInt32
  coinbaseValue : UInt64
  deriving DecidableEq

inductive AdapterError where
  | missingRequiredField (field : String)
  | hexDecodeFailure (field message : String)
  | invalidNumericConversion (field value : String)
  deriving DecidableEq

/-! ## Hexadecimal text -/

def decodeHexNibble (byte : UInt8) : Option UInt8 :=
  if 48 ≤ byte ∧ byte ≤ 57 then some (byte - 48)
  else if 97 ≤ byte ∧ byte ≤ 102 then some (byte - 97 + 10)
  else if 65 ≤ byte ∧ byte ≤ 70 then some (byte - 65 + 10)
  else none

/-- The loop of `decode_hex` from the byte at `i` on, on an even number of bytes. -/
def decodeHexFrom (field : String) (i : Nat) : Bytes → Except AdapterError Bytes
  | a :: b :: bytes => do
    let hi ← okOrElse (decodeHexNibble a)
      (.hexDecodeFailure field ("invalid hex at byte " ++ i.repr))
    let lo ← okOrElse (decodeHexNibble b)
      (.hexDecodeFailure field ("invalid hex at byte " ++ (i + 1).repr))
    let out ← decodeHexFrom field (i + 2) bytes
    return (hi <<< 4 ||| lo) :: out
  | _ => .ok []

def decodeHex (hex field : String) : Except AdapterError Bytes :=
  let hex := trim hex
  if (utf8 hex).length % 2 ≠ 0 then .error (.hexDecodeFailure field "odd-length hex string")
  else decodeHexFrom field 0 (utf8 hex)

/-! ## The template -/

def decodePrevHash (hex : String) : Except AdapterError Bytes :=
  if trim hex = "" then .error (.missingRequiredField "previousblockhash")
  else do
    let bytes ← decodeHex hex "previousblockhash"
    if bytes.length ≠ 32 then
      .error (.hexDecodeFailure "previousblockhash"
        ("decoded length " ++ bytes.length.repr ++ " != 32"))
    else return bytes.reverse

def decodeNbits (hex : String) : Except AdapterError UInt32 :=
  if trim hex = "" then .error (.missingRequiredField "bits")
  else do
    let bytes ← decodeHex hex "bits"
    if bytes.length ≠ 4 then .error (.invalidNumericConversion "bits" hex)
    else return fromBeBytes bytes

/-- `u32::try_from` of a `u64`. -/
def u32TryFrom (n : UInt64) : Option UInt32 :=
  if n.toNat < 2 ^ 32 then some n.toUInt32 else none

def fromBlockTemplate (template : BlockTemplate) : Except AdapterError AzcoinJobTemplate := do
  let prevHash ← decodePrevHash template.previousblockhash.text
  let nbits ← decodeNbits template.bits.text
  let ntime ← okOrElse (u32TryFrom template.curtime)
    (.invalidNumericConversion "curtime" (decimal template.curtime))
  let height ← okOrElse (u32TryFrom template.height)
    (.invalidNumericConversion "height" (decimal template.height))
  let jobId := decimal template.height ++ ":" ++ template.previousblockhash.text ++ ":" ++
    decimal template.curtime
  return {
    jobId := jobId
    prevHash := prevHash
    version := template.version
    nbits := nbits
    ntime := ntime
    height := height
    coinbaseValue := template.coinbasevalue }

/-! ## What the decoders accept -/

theorem decodeHexNibble_eq_val (byte : UInt8) : decodeHexNibble byte = Hex.val byte := by
  revert byte
  exact Hex.forall_byte (by decide +kernel)

/-- Pair by pair, the loop gives what that of the `hex` crate gives, but for the errors. -/
theorem toOption_decodeHexFrom (field : String) (i j : Nat) (bytes : Bytes) :
    (decodeHexFrom field i bytes).toOption = (Hex.decodeFrom j bytes).toOption := by
  induction i, bytes using decodeHexFrom.induct generalizing j with
  | case1 i a b bytes ih =>
    rw [decodeHexFrom, Hex.decodeFrom, decodeHexNibble_eq_val, decodeHexNibble_eq_val]
    cases Hex.val a with
    | none => rfl
    | some hi =>
      cases Hex.val b with
      | none => rfl
      | some lo =>
        have hrest := ih (j + 2)
        simp only [okOrElse, bind, Except.bind, pure, Except.pure]
        cases hours : decodeHexFrom field (i + 2) bytes <;>
          cases htheirs : Hex.decodeFrom (j + 2) bytes <;> rw [hours, htheirs] at hrest
        · rfl
        · cases hrest
        · cases hrest
        · cases hrest
          rfl
  | case2 i bytes hbytes =>
    rw [decodeHexFrom, Hex.decodeFrom]
    · rfl
    · exact hbytes
    · exact hbytes

/-- The adapter decodes the trimmed text as the `hex` crate does. -/
theorem decodeHex_eq_ok_iff {hex field : String} {bytes : Bytes} :
    decodeHex hex field = .ok bytes ↔ Hex.decode (trim hex) = .ok bytes := by
  rw [decodeHex, Hex.decode]
  split
  · simp
  · rw [← Except.toOption_eq_some, toOption_decodeHexFrom field 0 0, Except.toOption_eq_some]

/-- The `hex` crate accepts no white space. -/
theorem trim_eq_self_of_decode {hex : String} {bytes : Bytes} (h : Hex.decode hex = .ok bytes) :
    trim hex = hex := by
  refine trim_eq_self fun c hc => ?_
  have hdigit := (Hex.decode_eq_ok_iff.mp h).2.1 c hc
  exact Hex.forall_ascii (p := fun c => Hex.isHexDigit c = true → isWhitespace c = false)
    (by decide +kernel) (Hex.lt_of_isHexDigit hdigit) hdigit

/-- What both decoders accept, both read as the same bytes. -/
theorem decodeHex_agree {hex field : String} {bytes bytes' : Bytes}
    (h : decodeHex hex field = .ok bytes) (h' : Hex.decode hex = .ok bytes') : bytes = bytes' := by
  rw [decodeHex_eq_ok_iff, trim_eq_self_of_decode h', h'] at h
  exact (Except.ok.inj h).symm

/-- A conversion that succeeds keeps the value. -/
theorem u32TryFrom_eq_some_iff {n : UInt64} {m : UInt32} :
    u32TryFrom n = some m ↔ m.toUInt64 = n := by
  rw [u32TryFrom]
  split
  · next hlt =>
    have hn : n.toUInt32.toNat = n.toNat := by
      rw [UInt64.toNat_toUInt32, Nat.mod_eq_of_lt hlt]
    rw [Option.some.injEq, ← UInt64.toNat_inj, UInt32.toNat_toUInt64, ← hn, ← UInt32.toNat_inj]
    exact eq_comm
  · next hge =>
    refine iff_of_false (by simp) ?_
    rintro rfl
    rw [UInt32.toNat_toUInt64] at hge
    exact hge m.toNat_lt

/-! ## What a successful adaptation gives -/

theorem decodePrevHash_eq_ok {hex : String} {prevHash : Bytes}
    (h : decodePrevHash hex = .ok prevHash) :
    ∃ bytes, decodeHex hex "previousblockhash" = .ok bytes ∧ bytes.length = 32 ∧
      prevHash = bytes.reverse := by
  rw [decodePrevHash] at h
  split at h
  · cases h
  obtain ⟨bytes, hbytes, h⟩ := Except.bind_eq_ok.mp h
  split at h
  · cases h
  · next hlen =>
    cases h
    exact ⟨bytes, hbytes, Decidable.not_not.mp hlen, rfl⟩

theorem decodeNbits_eq_ok {hex : String} {nbits : UInt32} (h : decodeNbits hex = .ok nbits) :
    ∃ bytes, decodeHex hex "bits" = .ok bytes ∧ bytes.length = 4 ∧ nbits = fromBeBytes bytes := by
  rw [decodeNbits] at h
  split at h
  · cases h
  obtain ⟨bytes, hbytes, h⟩ := Except.bind_eq_ok.mp h
  split at h
  · cases h
  · next hlen =>
    cases h
    exact ⟨bytes, hbytes, Decidable.not_not.mp hlen, rfl⟩

/-- The fields of a template that was adapted. -/
structure AdaptedTemplate (template : BlockTemplate) (canonical : AzcoinJobTemplate) : Prop where
  prevHash : ∃ bytes, decodeHex template.previousblockhash.text "previousblockhash" = .ok bytes ∧
    bytes.length = 32 ∧ canonical.prevHash = bytes.reverse
  nbits : ∃ bytes, decodeHex template.bits.text "bits" = .ok bytes ∧ bytes.length = 4 ∧
    canonical.nbits = fromBeBytes bytes
  version : canonical.version = template.version
  ntime : canonical.ntime.toUInt64 = template.curtime
  height : canonical.height.toUInt64 = template.height
  coinbaseValue : canonical.coinbaseValue = template.coinbasevalue

theorem AdaptedTemplate.of_fromBlockTemplate {template : BlockTemplate}
    {canonical : AzcoinJobTemplate} (h : fromBlockTemplate template = .ok canonical) :
    AdaptedTemplate template canonical := by
  rw [fromBlockTemplate] at h
  obtain ⟨prevHash, hprev, h⟩ := Except.bind_eq_ok.mp h
  obtain ⟨nbits, hbits, h⟩ := Except.bind_eq_ok.mp h
  obtain ⟨ntime, hntime, h⟩ := Except.bind_eq_ok.mp h
  obtain ⟨height, hheight, h⟩ := Except.bind_eq_ok.mp h
  cases h
  exact {
    prevHash := decodePrevHash_eq_ok hprev
    nbits := decodeNbits_eq_ok hbits
    version := rfl
    ntime := u32TryFrom_eq_some_iff.mp (okOrElse_eq_ok.mp hntime)
    height := u32TryFrom_eq_some_iff.mp (okOrElse_eq_ok.mp hheight)
    coinbaseValue := rfl }

end AzcoinPool.Sv2
