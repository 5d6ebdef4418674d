import AzcoinPool.Lib.Endian
import AzcoinPool.Lib.Bytes
import Mathlib.Data.List.DropRight
import Mathlib.Data.List.Flatten

/-!
# The parts of Rust's standard library the program uses

Strings are Lean strings, byte slices are lists of bytes, and integers are Lean's fixed-width
integers, whose arithmetic wraps as Rust's does in a release build. This module adds what Lean has
under another name or not at all: the UTF-8 bytes of a string, `str::trim`, the formats `{}` of an
integer, `{:08x}` and `{:?}` of a Latin-1 character, `u32::from_str_radix` at radix 16, the
`to_le_bytes` and `from_be_bytes` conversions, and the bound the allocator puts on every string and
slice.
-/

/-! ## Allocations -/

/-- `isize::MAX` on a 64-bit target: no allocation is larger. -/
def isizeMax : Nat := 2 ^ 63 - 1

/-- A string as the allocator can hold it. -/
structure Str where
  text : String
  size_le : text.utf8ByteSize ≤ isizeMax := by decide
  deriving DecidableEq

/-- A byte slice as the allocator can hold it. -/
structure Slice where
  bytes : Bytes
  size_le : bytes.length ≤ isizeMax := by decide
  deriving DecidableEq

/-! ## Strings -/

/-- The UTF-8 bytes of a string. -/
def utf8 (s : String) : Bytes := s.toUTF8.data.toList

@[simp] theorem utf8_ofList (cs : List Char) :
    utf8 (String.ofList cs) = cs.flatMap String.utf8EncodeChar := by
  simp [utf8, List.utf8Encode]

theorem length_utf8 (s : String) : (utf8 s).length = s.utf8ByteSize := by
  simp [utf8, ← String.size_toByteArray]

/-- `char::is_whitespace`: the characters with the Unicode property `White_Space`. -/
def isWhitespace (c : Char) : Bool :=
  let n := c.toNat
  (0x9 ≤ n && n ≤ 0xd) || n == 0x20 || n == 0x85 || n == 0xa0 || n == 0x1680 ||
    (0x2000 ≤ n && n ≤ 0x200a) || n == 0x2028 || n == 0x2029 || n == 0x202f || n == 0x205f ||
    n == 0x3000

/-- `str::trim` on the characters. -/
def trimChars (cs : List Char) : List Char := (cs.dropWhile isWhitespace).rdropWhile isWhitespace

/-- `str::trim`. -/
def trim (s : String) : String := String.ofList (trimChars s.toList)

/-- `str::strip_prefix`. -/
def stripPrefix (s pre : String) : Option String :=
  if pre.toList.isPrefixOf s.toList then some (String.ofList (s.toList.drop pre.length)) else none

/-- Text that starts differently does not have the prefix. -/
theorem stripPrefix_append_eq_none {a rest pre : String} {n : Nat} (ha : n ≤ a.toList.length)
    (hpre : n ≤ pre.toList.length) (h : pre.toList.take n ≠ a.toList.take n) :
    stripPrefix (a ++ rest) pre = none := by
  refine if_neg fun hprefix => h ?_
  obtain ⟨t, ht⟩ := List.isPrefixOf_iff_prefix.mp hprefix
  rw [String.toList_append] at ht
  have htake := congrArg (List.take n) ht
  rwa [List.take_append_of_le_length hpre, List.take_append_of_le_length ha] at htake

/-- Text without white space is left as it is. -/
theorem trim_eq_self {s : String} (h : ∀ c ∈ s.toList, isWhitespace c = false) : trim s = s := by
  have hdrop : s.toList.dropWhile isWhitespace = s.toList := by
    rw [List.dropWhile_eq_self_iff]
    intro hlen
    rw [h _ (List.getElem_mem hlen)]
    exact Bool.false_ne_true
  have hrdrop : s.toList.rdropWhile isWhitespace = s.toList := by
    rw [List.rdropWhile_eq_self_iff]
    intro hne
    rw [h _ (List.getLast_mem hne)]
    exact Bool.false_ne_true
  rw [trim, trimChars, hdrop, hrdrop, String.ofList_toList]

/-- Trimming does not lengthen. -/
theorem length_utf8_trim_le (s : String) : (utf8 (trim s)).length ≤ (utf8 s).length := by
  have hsub : (trimChars s.toList).Sublist s.toList :=
    (List.rdropWhile_prefix _ _).sublist.trans (List.dropWhile_sublist _)
  have hutf8 : utf8 s = s.toList.flatMap String.utf8EncodeChar := by
    rw [← utf8_ofList, String.ofList_toList]
  rw [trim, utf8_ofList, hutf8]
  exact (hsub.flatMap _).length_le

/-- What is trimmed stays as it is. -/
theorem trim_trim (s : String) : trim (trim s) = trim s := by
  simp only [trim, trimChars, String.toList_ofList]
  set cs := s.toList.dropWhile isWhitespace with hcs
  have hdrop : (cs.rdropWhile isWhitespace).dropWhile isWhitespace =
      cs.rdropWhile isWhitespace := by
    obtain ⟨rest, hrest⟩ := List.rdropWhile_prefix isWhitespace cs
    cases hleft : cs.rdropWhile isWhitespace with
    | nil => rfl
    | cons c left =>
      -- the first character that is left is the first one that was no white space
      rw [hleft] at hrest
      have hsame : cs.dropWhile isWhitespace = cs := List.dropWhile_idempotent _ _
      rw [← hrest, List.cons_append, List.dropWhile_cons] at hsame
      cases hc : isWhitespace c with
      | false => simp [hc]
      | true =>
        rw [if_pos hc] at hsame
        have hlength := (List.dropWhile_sublist isWhitespace (l := left ++ rest)).length_le
        rw [hsame, List.length_cons] at hlength
        omega
  rw [hdrop, List.rdropWhile_idempotent]

/-! ## Formatting and parsing -/

/-- The lower-case hexadecimal digit of a number below 16. -/
def lowerHexDigit (n : Nat) : Char := if n < 10 then Char.ofNat (48 + n) else Char.ofNat (87 + n)

/-- `{:?}` of a character up to `U+00FF`, given by its code. -/
def debugLatin1 (c : UInt8) : String :=
  let body :=
    if c = 0 then "\\0" else if c = 9 then "\\t" else if c = 10 then "\\n"
    else if c = 13 then "\\r" else if c = 39 then "\\'" else if c = 92 then "\\\\"
    else if c < 32 ∨ (127 ≤ c ∧ c ≤ 160) ∨ c = 173 then
      "\\u\x7b" ++ String.ofList (Nat.toDigits 16 c.toNat) ++ "\x7d"
    else String.singleton (Char.ofUInt8 c)
  "'" ++ body ++ "'"

/-- `{:08x}` of a `u32`: eight digits always suffice. -/
def lowerHex08 (n : UInt32) : String :=
  String.ofList ([28, 24, 20, 16, 12, 8, 4, 0].map fun s => lowerHexDigit ((n.toNat >>> s) % 16))

/-- The value of a digit in radix 16. -/
def radix16Digit (b : UInt8) : Option Nat :=
  if 48 ≤ b ∧ b ≤ 57 then some (b.toNat - 48)
  else if 97 ≤ b ∧ b ≤ 102 then some (b.toNat - 87)
  else if 65 ≤ b ∧ b ≤ 70 then some (b.toNat - 55)
  else none

/-- The digits of `u32::from_str_radix(_, 16)`, with the overflow check of each step. -/
def u32Digits16 (acc : Nat) : Bytes → Option Nat
  | [] => some acc
  | b :: bs =>
    match radix16Digit b with
    | none => none
    | some d => if acc * 16 + d < 2 ^ 32 then u32Digits16 (acc * 16 + d) bs else none

/-- `u32::from_str_radix(s, 16)`, `none` standing for its error: an optional `+`, then one digit or
more of either case. -/
def u32FromStrRadix16 (s : String) : Option UInt32 :=
  match utf8 s with
  | [] => none
  | b :: bs =>
    let digits := if b = 43 then bs else b :: bs
    if digits.isEmpty then none else (u32Digits16 0 digits).map UInt32.ofNat

/-! ## Results -/

/-- A result that is there. -/
theorem Except.exists_of_isOk {ε α : Type*} {x : Except ε α} (h : x.isOk = true) :
    ∃ a, x = .ok a := by
  cases x with
  | error e => cases h
  | ok a => exact ⟨a, rfl⟩

/-- A result that is there and passes a test. -/
theorem Except.exists_of_any {ε α : Type*} {x : Except ε α} {p : α → Bool}
    (h : x.toOption.any p = true) : ∃ a, x = .ok a ∧ p a = true := by
  cases x with
  | error e => cases h
  | ok a => exact ⟨a, rfl, h⟩

theorem Except.toOption_eq_some {ε α : Type*} {x : Except ε α} {a : α} :
    x.toOption = some a ↔ x = .ok a := by
  cases x with
  | error e => simp [Except.toOption]
  | ok b => simp [Except.toOption]

/-- A sequence of fallible steps succeeds when each step does. -/
theorem Except.bind_eq_ok {ε : Type*} {α β : Type} {x : Except ε α} {f : α → Except ε β} {b : β} :
    x >>= f = .ok b ↔ ∃ a, x = .ok a ∧ f a = .ok b := by
  cases x with
  | error e => simp [bind, Except.bind]
  | ok a => simp [bind, Except.bind]

/-- `Option::ok_or_else`. -/
def okOrElse {ε α : Type} (o : Option α) (e : ε) : Except ε α :=
  match o with
  | some a => .ok a
  | none => .error e

theorem okOrElse_eq_ok {ε α : Type} {o : Option α} {e : ε} {a : α} :
    okOrElse o e = .ok a ↔ o = some a := by
  cases o <;> simp [okOrElse]

theorem Except.mapError_eq_ok {ε ε' α : Type*} {x : Except ε α} {f : ε → ε'} {a : α} :
    x.mapError f = .ok a ↔ x = .ok a := by
  cases x with
  | error e => simp [Except.mapError]
  | ok b => simp [Except.mapError]

/-! ## Integers as bytes -/

/-- `u32::to_le_bytes`. -/
def toLeBytes (n : UInt32) : Bytes := Endian.leBytes 4 n.toNat

@[simp] theorem length_toLeBytes (n : UInt32) : (toLeBytes n).length = 4 :=
  Endian.length_leBytes _ _

/-- `u32::from_be_bytes` of four bytes. -/
def fromBeBytes (bs : Bytes) : UInt32 := UInt32.ofNat (Endian.beNat bs)

/-- `u32::from_le_bytes` of four bytes. -/
def fromLeBytes (bs : Bytes) : UInt32 := UInt32.ofNat (Endian.leNat bs)

theorem fromBeBytes_reverse (bs : Bytes) : fromBeBytes bs.reverse = fromLeBytes bs := by
  rw [fromBeBytes, Endian.beNat_reverse, fromLeBytes]

/-- Reversed, four big-endian bytes are the little-endian bytes of their value. -/
theorem toLeBytes_fromBeBytes {bs : Bytes} (h : bs.length = 4) :
    toLeBytes (fromBeBytes bs) = bs.reverse := by
  have hlt : Endian.beNat bs < 2 ^ 32 := by
    have := Endian.beNat_lt bs
    rw [h] at this
    omega
  rw [toLeBytes, fromBeBytes, UInt32.toNat_ofNat_of_lt' hlt, Endian.beNat, ← h,
    ← List.length_reverse, Endian.leBytes_leNat]

/-- Four little-endian bytes are read back. -/
theorem toLeBytes_fromLeBytes {bs : Bytes} (h : bs.length = 4) :
    toLeBytes (fromLeBytes bs) = bs := by
  rw [← fromBeBytes_reverse, toLeBytes_fromBeBytes (by simpa using h), List.reverse_reverse]

/-- `u64::to_string`. -/
def decimal (n : UInt64) : String := n.toNat.repr

/-- Two integers with the same decimal text are equal. -/
theorem decimal_inj {a b : UInt64} : decimal a = decimal b ↔ a = b := by
  refine ⟨fun h => ?_, congrArg decimal⟩
  have hdigits : Nat.toDigits 10 a.toNat = Nat.toDigits 10 b.toNat := by
    simpa only [decimal, Nat.toList_repr] using congrArg String.toList h
  have hval := congrArg (Nat.ofDigitChars 10 · 0) hdigits
  simp only [Nat.ofDigitChars_ten_toDigits] at hval
  exact UInt64.toNat_inj.mp hval
