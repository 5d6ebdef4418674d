import AzcoinPool.Lib.RustStd

/-!
# Hexadecimal text

The `hex` crate's `encode` and `decode`: two lower-case digits a byte one way; the other way digits
of either case, an even number of them, with the crate's two errors and their texts. Both work on
the UTF-8 bytes of a string, and `decode` reads back what `encode` wrote (`decode_encode`). A text
of eight lower-case digits is that of four bytes (`exists_encode_of_isLowerHex08`), and
`from_str_radix` reads back what `{:08x}` wrote (`u32FromStrRadix16_lowerHex08`).
-/

open Endian

namespace Hex

/-- `hex::FromHexError`, as far as `decode` into a vector can return it. -/
inductive FromHexError where
  | invalidHexCharacter (c : UInt8) (index : Nat)
  | oddLength
  deriving DecidableEq

/-- `Display` of the error. -/
def FromHexError.display : FromHexError → String
  | invalidHexCharacter c index =>
    "Invalid character " ++ debugLatin1 c ++ " at position " ++ index.repr
  | oddLength => "Odd number of digits"

/-- The value of a hexadecimal digit. -/
def val (c : UInt8) : Option UInt8 :=
  if 65 ≤ c ∧ c ≤ 70 then some (c - 65 + 10)
  else if 97 ≤ c ∧ c ≤ 102 then some (c - 97 + 10)
  else if 48 ≤ c ∧ c ≤ 57 then some (c - 48)
  else none

/-- The digit of a value below 16. -/
def digit (n : UInt8) : UInt8 := if n < 10 then 48 + n else 87 + n

/-- `decode` from the byte at `index` on: the pairs are taken in order and the first bad digit is
reported. -/
def decodeFrom (index : Nat) : Bytes → Except FromHexError Bytes
  | a :: b :: rest =>
    match val a with
    | none => .error (.invalidHexCharacter a index)
    | some hi =>
      match val b with
      | none => .error (.invalidHexCharacter b (index + 1))
      | some lo =>
        match decodeFrom (index + 2) rest with
        | .error e => .error e
        | .ok bs => .ok ((hi <<< 4 ||| lo) :: bs)
  | _ => .ok []

/-- `hex::decode`. -/
def decode (s : String) : Except FromHexError Bytes :=
  if (utf8 s).length % 2 ≠ 0 then .error .oddLength else decodeFrom 0 (utf8 s)

def encodeByte (b : UInt8) : List Char :=
  [Char.ofUInt8 (digit (b >>> 4)), Char.ofUInt8 (digit (b &&& 0xf))]

/-- `hex::encode`. -/
def encode (bs : Bytes) : String := String.ofList (bs.flatMap encodeByte)

/-! ## Reading back what was written -/

/-- A fact about every byte, from its 256 instances. -/
theorem forall_byte {p : UInt8 → Prop} (h : ∀ n : Fin 256, p (UInt8.ofNat n)) (b : UInt8) :
    p b := by
  simpa using h ⟨b.toNat, b.toNat_lt⟩

/-- The two digits of a byte as bytes of text. -/
def encodeBytes (b : UInt8) : Bytes := [digit (b >>> 4), digit (b &&& 0xf)]

theorem utf8EncodeChar_encodeByte (b : UInt8) :
    (encodeByte b).flatMap String.utf8EncodeChar = encodeBytes b := by
  revert b
  exact forall_byte (by decide +kernel)

theorem val_digits (b : UInt8) : val (digit (b >>> 4)) = some (b >>> 4) ∧
    val (digit (b &&& 0xf)) = some (b &&& 0xf) ∧ b >>> 4 <<< 4 ||| (b &&& 0xf) = b := by
  revert b
  exact forall_byte (by decide +kernel)

theorem utf8_encode (bs : Bytes) : utf8 (encode bs) = bs.flatMap encodeBytes := by
  rw [encode, utf8_ofList, List.flatMap_assoc]
  exact List.flatMap_congr fun b _ => utf8EncodeChar_encodeByte b

theorem length_utf8_encode (bs : Bytes) : (utf8 (encode bs)).length = 2 * bs.length := by
  rw [utf8_encode]
  induction bs with
  | nil => rfl
  | cons b bs ih => simp [encodeBytes] at ih ⊢; omega

theorem decodeFrom_encodeBytes (bs : Bytes) (index : Nat) :
    decodeFrom index (bs.flatMap encodeBytes) = .ok bs := by
  induction bs generalizing index with
  | nil => rfl
  | cons b bs ih =>
    obtain ⟨hhi, hlo, hb⟩ := val_digits b
    simp only [List.flatMap_cons, encodeBytes, List.cons_append, List.nil_append, decodeFrom, hhi,
      hlo, hb] at ih ⊢
    rw [ih]

/-- `decode` reads back what `encode` wrote. -/
@[simp] theorem decode_encode (bs : Bytes) : decode (encode bs) = .ok bs := by
  rw [decode, if_neg (by rw [length_utf8_encode]; omega), utf8_encode, decodeFrom_encodeBytes]

theorem encode_inj {as bs : Bytes} : encode as = encode bs ↔ as = bs := by
  refine ⟨fun h => ?_, congrArg encode⟩
  have has := decode_encode as
  rw [h, decode_encode] at has
  exact (Except.ok.inj has).symm

theorem encodeByte_inj {a b : UInt8} : encodeByte a = encodeByte b ↔ a = b := by
  refine ⟨fun h => ?_, congrArg encodeByte⟩
  have hencode : encode [a] = encode [b] := by
    rw [encode, encode, List.flatMap_singleton, List.flatMap_singleton, h]
  exact List.head_eq_of_cons_eq (encode_inj.mp hencode)

/-- Decoding halves the text. -/
theorem length_le_of_decodeFrom {index : Nat} {bs out : Bytes} (h : decodeFrom index bs = .ok out) :
    2 * out.length ≤ bs.length := by
  induction index, bs using decodeFrom.induct generalizing out with
  | case1 index a b rest ha => simp [decodeFrom, ha] at h
  | case2 index a b rest hi ha hb => simp [decodeFrom, ha, hb] at h
  | case3 index a b rest hi ha lo hb e hrest ih => simp [decodeFrom, ha, hb, hrest] at h
  | case4 index a b rest hi ha lo hb bs hrest ih =>
    simp only [decodeFrom, ha, hb, hrest, Except.ok.injEq] at h
    subst h
    have := ih hrest
    simp only [List.length_cons]
    omega
  | case5 bs index hbs =>
    rw [decodeFrom] at h
    · cases h; simp
    · exact hbs

theorem length_le_of_decode {s : String} {bs : Bytes} (h : decode s = .ok bs) :
    2 * bs.length ≤ (utf8 s).length := by
  rw [decode] at h
  split at h
  · cases h
  · exact length_le_of_decodeFrom h

/-! ## Formatted words -/

theorem encodeByte_eq (b : UInt8) :
    encodeByte b = [lowerHexDigit (b.toNat / 16), lowerHexDigit (b.toNat % 16)] := by
  revert b
  exact forall_byte (by decide +kernel)

/-- `{:08x}` writes the big-endian bytes. -/
theorem lowerHex08_eq_encode (n : UInt32) : lowerHex08 n = encode (toLeBytes n).reverse := by
  have hbyte (m : Nat) : (UInt8.ofNat m).toNat = m % 256 := UInt8.toNat_ofNat'
  have hn := n.toNat_lt
  simp only [lowerHex08, encode, toLeBytes, Endian.leBytes, List.reverse_cons, List.reverse_nil,
    List.nil_append, List.cons_append, List.flatMap_cons, List.flatMap_nil, encodeByte_eq, hbyte,
    List.map_cons, List.map_nil, Nat.shiftRight_eq_div_pow]
  refine congrArg String.ofList ?_
  simp only [List.cons.injEq, and_true]
  refine ⟨?_, ?_, ?_, ?_, ?_, ?_, ?_, ?_⟩ <;> refine congrArg lowerHexDigit ?_ <;> omega

/-- Reading `{:08x}` back gives the big-endian bytes. -/
theorem decode_lowerHex08 (n : UInt32) : decode (lowerHex08 n) = .ok (toLeBytes n).reverse := by
  rw [lowerHex08_eq_encode, decode_encode]

theorem utf8ByteSize_lowerHex08 (n : UInt32) : (lowerHex08 n).utf8ByteSize = 8 := by
  rw [← length_utf8, lowerHex08_eq_encode, length_utf8_encode, List.length_reverse,
    length_toLeBytes]

/-! ## Eight digits -/

/-- The characters `{:x}` writes. -/
def isLowerHexDigit (c : Char) : Bool := ('0' ≤ c && c ≤ '9') || ('a' ≤ c && c ≤ 'f')

/-- The text is eight lower-case hexadecimal digits. -/
structure IsLowerHex08 (s : String) : Prop where
  length : s.toList.length = 8
  digits : ∀ c ∈ s.toList, isLowerHexDigit c = true

theorem exists_lowerHexDigit {c : Char} (h : isLowerHexDigit c = true) :
    ∃ v < 16, lowerHexDigit v = c := by
  simp only [isLowerHexDigit, Bool.or_eq_true, Bool.and_eq_true, decide_eq_true_eq, Char.le_def,
    UInt32.le_iff_toNat_le] at h
  rcases h with ⟨hlo, hhi⟩ | ⟨hlo, hhi⟩
  · have h1 : 48 ≤ c.toNat := hlo
    have h2 : c.toNat ≤ 57 := hhi
    refine ⟨c.toNat - 48, by omega, ?_⟩
    rw [lowerHexDigit, if_pos (by omega), Nat.add_sub_cancel' h1, Char.ofNat_toNat]
  · have h1 : 97 ≤ c.toNat := hlo
    have h2 : c.toNat ≤ 102 := hhi
    refine ⟨c.toNat - 87, by omega, ?_⟩
    rw [lowerHexDigit, if_neg (by omega), Nat.add_sub_cancel' (by omega), Char.ofNat_toNat]

/-- Nothing of eight digits is trimmed. -/
theorem trim_of_isLowerHex08 {s : String} (h : IsLowerHex08 s) : trim s = s := by
  refine trim_eq_self fun c hc => ?_
  obtain ⟨v, hv, rfl⟩ := exists_lowerHexDigit (h.digits c hc)
  have hdigit : ∀ v < 16, isWhitespace (lowerHexDigit v) = false := by decide +kernel
  exact hdigit v hv

/-- Two digits are those of a byte. -/
theorem exists_encodeByte {c d : Char} (hc : isLowerHexDigit c = true)
    (hd : isLowerHexDigit d = true) : ∃ b, encodeByte b = [c, d] := by
  obtain ⟨x, hx, rfl⟩ := exists_lowerHexDigit hc
  obtain ⟨y, hy, rfl⟩ := exists_lowerHexDigit hd
  have hbyte : (UInt8.ofNat (16 * x + y)).toNat = 16 * x + y :=
    UInt8.toNat_ofNat_of_lt' (by show 16 * x + y < 256; omega)
  refine ⟨UInt8.ofNat (16 * x + y), ?_⟩
  rw [encodeByte_eq, hbyte, show (16 * x + y) / 16 = x by omega,
    show (16 * x + y) % 16 = y by omega]

/-- Eight digits are those of four bytes. -/
theorem exists_encode_of_isLowerHex08 {s : String} (h : IsLowerHex08 s) :
    ∃ b₃ b₂ b₁ b₀, s = encode [b₃, b₂, b₁, b₀] := by
  obtain ⟨hlen, hdigits⟩ := h
  match hs : s.toList, hlen with
  | [c₇, c₆, c₅, c₄, c₃, c₂, c₁, c₀], _ =>
    rw [hs] at hdigits
    simp only [List.mem_cons, List.not_mem_nil, or_false, forall_eq_or_imp, forall_eq] at hdigits
    obtain ⟨h₇, h₆, h₅, h₄, h₃, h₂, h₁, h₀⟩ := hdigits
    obtain ⟨b₃, hb₃⟩ := exists_encodeByte h₇ h₆
    obtain ⟨b₂, hb₂⟩ := exists_encodeByte h₅ h₄
    obtain ⟨b₁, hb₁⟩ := exists_encodeByte h₃ h₂
    obtain ⟨b₀, hb₀⟩ := exists_encodeByte h₁ h₀
    refine ⟨b₃, b₂, b₁, b₀, ?_⟩
    rw [← String.ofList_toList (s := s), hs, encode]
    simp [hb₃, hb₂, hb₁, hb₀]

theorem radix16Digit_digits (b : UInt8) : radix16Digit (digit (b >>> 4)) = some (b.toNat / 16) ∧
    radix16Digit (digit (b &&& 0xf)) = some (b.toNat % 16) ∧ digit (b >>> 4) ≠ 43 := by
  revert b
  exact forall_byte (by decide +kernel)

/-- The digits of bytes that fit are read as their big-endian value. -/
theorem u32Digits16_encodeBytes (acc : Nat) (bs : Bytes)
    (h : acc * 256 ^ bs.length + beNat bs < 2 ^ 32) :
    u32Digits16 acc (bs.flatMap encodeBytes) = some (acc * 256 ^ bs.length + beNat bs) := by
  induction bs generalizing acc with
  | nil => simp [u32Digits16]
  | cons b bs ih =>
    obtain ⟨hhi, hlo, -⟩ := radix16Digit_digits b
    have hsum : acc * 256 ^ (b :: bs).length + beNat (b :: bs) =
        (acc * 256 + b.toNat) * 256 ^ bs.length + beNat bs := by
      rw [beNat_cons, List.length_cons, Nat.pow_succ]
      ring
    have hpos : 0 < 256 ^ bs.length := Nat.pow_pos (by decide)
    have hle : acc * 256 + b.toNat ≤ (acc * 256 + b.toNat) * 256 ^ bs.length :=
      Nat.le_mul_of_pos_right _ hpos
    rw [hsum] at h ⊢
    have hb := b.toNat_lt
    simp only [List.flatMap_cons, encodeBytes, List.cons_append, List.nil_append, u32Digits16, hhi,
      hlo]
    rw [if_pos (by omega), if_pos (by omega),
      show (acc * 16 + b.toNat / 16) * 16 + b.toNat % 16 = acc * 256 + b.toNat by omega]
    exact ih _ h

/-- `from_str_radix` reads back what `{:08x}` wrote. -/
theorem u32FromStrRadix16_lowerHex08 (n : UInt32) : u32FromStrRadix16 (lowerHex08 n) = some n := by
  have hn : n.toNat < 256 ^ 4 := n.toNat_lt
  have hvalue : beNat (toLeBytes n).reverse = n.toNat := by
    rw [beNat_reverse, toLeBytes, leNat_leBytes hn]
  have hdigits := u32Digits16_encodeBytes 0 (toLeBytes n).reverse
    (by rw [hvalue, Nat.zero_mul, Nat.zero_add]; exact n.toNat_lt)
  rw [hvalue, Nat.zero_mul, Nat.zero_add] at hdigits
  rw [u32FromStrRadix16, lowerHex08_eq_encode, utf8_encode]
  cases hbs : (toLeBytes n).reverse with
  | nil => exact absurd (congrArg List.length hbs) (by simp)
  | cons b bs =>
    rw [hbs] at hdigits
    obtain ⟨-, -, hplus⟩ := radix16Digit_digits b
    simp only [List.flatMap_cons, encodeBytes, List.cons_append, List.nil_append, hplus, if_false,
      List.isEmpty_cons, Bool.false_eq_true] at hdigits ⊢
    rw [hdigits, Option.map_some, UInt32.ofNat_toNat]

theorem lowerHex08_inj {a b : UInt32} : lowerHex08 a = lowerHex08 b ↔ a = b := by
  refine ⟨fun h => ?_, congrArg lowerHex08⟩
  have ha := u32FromStrRadix16_lowerHex08 a
  rw [h, u32FromStrRadix16_lowerHex08] at ha
  exact (Option.some.inj ha).symm

end Hex
