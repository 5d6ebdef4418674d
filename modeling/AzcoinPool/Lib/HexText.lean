import AzcoinPool.Lib.Hex

/-!
# What the hexadecimal readers accept

The languages of `hex::decode` and of `u32::from_str_radix` at radix 16 on texts of eight bytes,
said on the characters. `decode` accepts an even number of digits of either case and nothing else
(`decode_eq_ok_iff`). `from_str_radix` accepts eight digits (`IsWord`) and, what `decode` does not,
seven digits behind a plus sign (`IsPlusWord`, `u32FromStrRadix16_eq_some_iff`).
-/

namespace Hex

/-! ## Digits -/

/-- The characters `[0-9a-fA-F]`. -/
def isHexDigit (c : Char) : Bool :=
  ('0' ≤ c && c ≤ '9') || ('a' ≤ c && c ≤ 'f') || ('A' ≤ c && c ≤ 'F')

/-- The value of a digit. -/
def digitValue (c : Char) : Nat :=
  if c ≤ '9' then c.toNat - 48 else if c ≤ 'F' then c.toNat - 55 else c.toNat - 87

/-- The number that digits denote behind a number already read. -/
def number (acc : Nat) (cs : List Char) : Nat := cs.foldl (fun n c => n * 16 + digitValue c) acc

/-- The bytes that pairs of digits denote. -/
def pairBytes : List Char → Bytes
  | a :: b :: cs => UInt8.ofNat (16 * digitValue a + digitValue b) :: pairBytes cs
  | _ => []

/-- Eight digits, and the number they denote. -/
structure IsWord (s : String) (n : UInt32) : Prop where
  length : s.toList.length = 8
  digits : ∀ c ∈ s.toList, isHexDigit c = true
  value : n.toNat = number 0 s.toList

/-- Seven digits behind a plus sign, and the number they denote. -/
structure IsPlusWord (s : String) (n : UInt32) : Prop where
  plus : s.toList.head? = some '+'
  length : s.toList.length = 8
  digits : ∀ c ∈ s.toList.tail, isHexDigit c = true
  value : n.toNat = number 0 s.toList.tail

/-! ## Characters as bytes -/

/-- The byte of an ASCII character. -/
def asciiByte (c : Char) : UInt8 := UInt8.ofNat c.toNat

/-- A fact about every ASCII character, from its 128 instances. -/
theorem forall_ascii {p : Char → Prop} (h : ∀ n < 128, p (Char.ofNat n)) {c : Char}
    (hc : c.toNat < 128) : p c := by
  simpa using h c.toNat hc

theorem utf8EncodeChar_of_lt {c : Char} (h : c.toNat < 128) :
    String.utf8EncodeChar c = [asciiByte c] :=
  if_pos (Nat.le_of_lt_succ h)

/-- Beyond ASCII a character starts with a byte that is not one of a digit or a sign. -/
theorem utf8EncodeChar_of_le {c : Char} (h : 128 ≤ c.toNat) :
    ∃ b bs, String.utf8EncodeChar c = b :: bs ∧ 128 ≤ b.toNat := by
  have hbyte (n : Nat) : (UInt8.ofNat n).toNat = n % 256 := UInt8.toNat_ofNat'
  rw [String.utf8EncodeChar]
  change 128 ≤ c.val.toNat at h
  rw [if_neg (by omega)]
  split
  · exact ⟨_, _, rfl, by rw [hbyte]; omega⟩
  · split
    · exact ⟨_, _, rfl, by rw [hbyte]; omega⟩
    · exact ⟨_, _, rfl, by rw [hbyte]; omega⟩

theorem lt_of_isHexDigit {c : Char} (h : isHexDigit c = true) : c.toNat < 128 := by
  simp only [isHexDigit, Bool.or_eq_true, Bool.and_eq_true, decide_eq_true_eq, Char.le_def,
    UInt32.le_iff_toNat_le] at h
  change c.val.toNat < 128
  rcases h with (⟨-, h⟩ | ⟨-, h⟩) | ⟨-, h⟩ <;> exact Nat.lt_of_le_of_lt h (by decide)

/-- The two readers take the bytes of the digits for digits. -/
theorem val_asciiByte {c : Char} (hc : c.toNat < 128) :
    val (asciiByte c) = (if isHexDigit c then some (UInt8.ofNat (digitValue c)) else none) ∧
      radix16Digit (asciiByte c) = if isHexDigit c then some (digitValue c) else none :=
  forall_ascii (p := fun c =>
    val (asciiByte c) = (if isHexDigit c then some (UInt8.ofNat (digitValue c)) else none) ∧
      radix16Digit (asciiByte c) = if isHexDigit c then some (digitValue c) else none)
    (by decide +kernel) hc

theorem digitValue_lt {c : Char} (h : isHexDigit c = true) : digitValue c < 16 :=
  forall_ascii (p := fun c => isHexDigit c = true → digitValue c < 16) (by decide +kernel)
    (lt_of_isHexDigit h) h

theorem isSome_radix16Digit (b : UInt8) : (radix16Digit b).isSome = (val b).isSome := by
  revert b
  exact forall_byte (by decide +kernel)

theorem lt_of_isSome_val {b : UInt8} (h : (val b).isSome = true) : b.toNat < 128 := by
  revert h
  exact forall_byte (p := fun b => (val b).isSome = true → b.toNat < 128) (by decide +kernel) b

/-- Digits are the bytes they are written with. -/
theorem flatMap_utf8EncodeChar {cs : List Char} (h : ∀ c ∈ cs, isHexDigit c = true) :
    cs.flatMap String.utf8EncodeChar = cs.map asciiByte := by
  rw [List.flatMap_congr fun c hc => utf8EncodeChar_of_lt (lt_of_isHexDigit (h c hc)),
    List.map_eq_flatMap]

/-- Text whose bytes are those of digits consists of digits. -/
theorem isHexDigit_of_bytes {cs : List Char}
    (h : ∀ b ∈ cs.flatMap String.utf8EncodeChar, (val b).isSome = true) {c : Char} (hc : c ∈ cs) :
    isHexDigit c = true := by
  have hbyte : ∀ b ∈ String.utf8EncodeChar c, (val b).isSome = true :=
    fun b hb => h b (List.mem_flatMap.mpr ⟨c, hc, hb⟩)
  by_cases hascii : c.toNat < 128
  · have hval := hbyte (asciiByte c) (by rw [utf8EncodeChar_of_lt hascii]; simp)
    rw [(val_asciiByte hascii).1] at hval
    by_contra hdigit
    rw [if_neg hdigit] at hval
    cases hval
  · obtain ⟨b, bs, heq, hb⟩ := utf8EncodeChar_of_le (Nat.le_of_not_lt hascii)
    have := lt_of_isSome_val (hbyte b (by rw [heq]; simp))
    omega

theorem utf8_eq_flatMap (s : String) : utf8 s = s.toList.flatMap String.utf8EncodeChar := by
  rw [← utf8_ofList, String.ofList_toList]

/-! ## Pairs of digits -/

/-- What does not start with a pair has at most one element. -/
theorem eq_nil_or_singleton {α : Type*} {l : List α} (h : ∀ a b rest, l = a :: b :: rest → False) :
    l = [] ∨ ∃ a, l = [a] := by
  match l, h with
  | [], _ => exact .inl rfl
  | [a], _ => exact .inr ⟨a, rfl⟩
  | a :: b :: rest, h => exact (h a b rest rfl).elim

/-- `decode` needs every byte to be one of a digit. -/
theorem isSome_val_of_decodeFrom {index : Nat} {bs out : Bytes} (heven : bs.length % 2 = 0)
    (h : decodeFrom index bs = .ok out) : ∀ b ∈ bs, (val b).isSome = true := by
  induction index, bs using decodeFrom.induct generalizing out with
  | case1 index a b rest ha => simp [decodeFrom, ha] at h
  | case2 index a b rest hi ha hb => simp [decodeFrom, ha, hb] at h
  | case3 index a b rest hi ha lo hb e hrest ih => simp [decodeFrom, ha, hb, hrest] at h
  | case4 index a b rest hi ha lo hb bs hrest ih =>
    simp only [List.length_cons] at heven
    have hrestDigits := ih (by omega) hrest
    simp only [List.mem_cons, forall_eq_or_imp, ha, hb, Option.isSome_some, true_and]
    exact hrestDigits
  | case5 bs index hbs =>
    rcases eq_nil_or_singleton hbs with rfl | ⟨a, rfl⟩
    · simp
    · cases heven

theorem shiftLeft_or_ofNat : ∀ x < 16, ∀ y < 16,
    UInt8.ofNat x <<< 4 ||| UInt8.ofNat y = UInt8.ofNat (16 * x + y) := by
  decide +kernel

/-- `decode` reads pairs of digits as bytes. -/
theorem decodeFrom_map_asciiByte (index : Nat) (cs : List Char)
    (h : ∀ c ∈ cs, isHexDigit c = true) :
    decodeFrom index (cs.map asciiByte) = .ok (pairBytes cs) := by
  induction cs using pairBytes.induct generalizing index with
  | case1 a b cs ih =>
    simp only [List.mem_cons, forall_eq_or_imp] at h
    obtain ⟨ha, hb, hcs⟩ := h
    have hvalA := (val_asciiByte (lt_of_isHexDigit ha)).1
    have hvalB := (val_asciiByte (lt_of_isHexDigit hb)).1
    rw [if_pos ha] at hvalA
    rw [if_pos hb] at hvalB
    simp only [List.map_cons, decodeFrom, hvalA, hvalB, ih (index + 2) hcs, pairBytes,
      shiftLeft_or_ofNat _ (digitValue_lt ha) _ (digitValue_lt hb)]
  | case2 cs hcs =>
    rcases eq_nil_or_singleton hcs with rfl | ⟨a, rfl⟩
    · rfl
    · rfl

/-- `hex::decode` accepts an even number of digits, and reads the bytes their pairs denote. -/
theorem decode_eq_ok_iff {s : String} {bs : Bytes} :
    decode s = .ok bs ↔ s.toList.length % 2 = 0 ∧ (∀ c ∈ s.toList, isHexDigit c = true) ∧
      bs = pairBytes s.toList := by
  rw [decode, utf8_eq_flatMap]
  constructor
  · intro h
    split at h
    · cases h
    · next heven =>
      have heven' := Decidable.not_not.mp heven
      have hdigits : ∀ c ∈ s.toList, isHexDigit c = true :=
        fun c hc => isHexDigit_of_bytes (isSome_val_of_decodeFrom heven' h) hc
      rw [flatMap_utf8EncodeChar hdigits] at h heven'
      rw [decodeFrom_map_asciiByte 0 _ hdigits] at h
      exact ⟨by rwa [List.length_map] at heven', hdigits, (Except.ok.inj h).symm⟩
  · rintro ⟨heven, hdigits, rfl⟩
    rw [flatMap_utf8EncodeChar hdigits, List.length_map, if_neg (by omega),
      decodeFrom_map_asciiByte 0 _ hdigits]

theorem length_pairBytes (cs : List Char) : (pairBytes cs).length = cs.length / 2 := by
  induction cs using pairBytes.induct with
  | case1 a b cs ih => simp only [pairBytes, List.length_cons, ih]; omega
  | case2 cs hcs =>
    rcases eq_nil_or_singleton hcs with rfl | ⟨a, rfl⟩
    · rfl
    · simp [pairBytes]

/-! ## Words -/

/-- `from_str_radix` needs every byte behind the sign to be one of a digit. -/
theorem isSome_val_of_u32Digits16 {acc n : Nat} {bs : Bytes} (h : u32Digits16 acc bs = some n) :
    ∀ b ∈ bs, (val b).isSome = true := by
  induction bs generalizing acc with
  | nil => simp
  | cons b bs ih =>
    rw [u32Digits16] at h
    split at h
    · cases h
    · next d hd =>
      split at h
      · have hb : (val b).isSome = true := by rw [← isSome_radix16Digit, hd]; rfl
        simp only [List.mem_cons, forall_eq_or_imp]
        exact ⟨hb, ih h⟩
      · cases h

/-- One more digit stays below the bound that one more power of the base allows. -/
theorem digit_step_le {acc d : Nat} (hd : d < 16) (n : Nat) :
    (acc * 16 + d + 1) * 16 ^ n ≤ (acc + 1) * 16 ^ (n + 1) :=
  calc (acc * 16 + d + 1) * 16 ^ n ≤ (acc + 1) * 16 * 16 ^ n := Nat.mul_le_mul_right _ (by omega)
    _ = (acc + 1) * 16 ^ (n + 1) := by rw [Nat.pow_succ]; ring

/-- Digits that cannot overflow are read as the number they denote. -/
theorem u32Digits16_map_asciiByte {acc : Nat} {cs : List Char}
    (h : ∀ c ∈ cs, isHexDigit c = true) (hacc : (acc + 1) * 16 ^ cs.length ≤ 2 ^ 32) :
    u32Digits16 acc (cs.map asciiByte) = some (number acc cs) := by
  induction cs generalizing acc with
  | nil => rfl
  | cons c cs ih =>
    simp only [List.mem_cons, forall_eq_or_imp] at h
    obtain ⟨hc, hcs⟩ := h
    have hval := (val_asciiByte (lt_of_isHexDigit hc)).2
    rw [if_pos hc] at hval
    have hstep : (acc * 16 + digitValue c + 1) * 16 ^ cs.length ≤ 2 ^ 32 :=
      (digit_step_le (digitValue_lt hc) cs.length).trans hacc
    have hlt : acc * 16 + digitValue c < 2 ^ 32 :=
      calc acc * 16 + digitValue c < (acc * 16 + digitValue c + 1) * 1 := by omega
        _ ≤ (acc * 16 + digitValue c + 1) * 16 ^ cs.length :=
          Nat.mul_le_mul_left _ (Nat.pow_pos (by decide))
        _ ≤ 2 ^ 32 := hstep
    simp only [List.map_cons, u32Digits16, hval]
    rw [if_pos hlt, ih hcs hstep]
    rfl

theorem number_lt {acc : Nat} {cs : List Char} (h : ∀ c ∈ cs, isHexDigit c = true) :
    number acc cs < (acc + 1) * 16 ^ cs.length := by
  induction cs generalizing acc with
  | nil => simp [number]
  | cons c cs ih =>
    simp only [List.mem_cons, forall_eq_or_imp] at h
    calc number acc (c :: cs) = number (acc * 16 + digitValue c) cs := rfl
      _ < (acc * 16 + digitValue c + 1) * 16 ^ cs.length := ih h.2
      _ ≤ (acc + 1) * 16 ^ (c :: cs).length := digit_step_le (digitValue_lt h.1) cs.length

/-- Up to eight digits are read as the number they denote. -/
theorem read_digits {cs : List Char} {n : UInt32} (h : ∀ c ∈ cs, isHexDigit c = true)
    (hlen : cs.length ≤ 8) :
    (u32Digits16 0 (cs.map asciiByte)).map UInt32.ofNat = some n ↔ n.toNat = number 0 cs := by
  have hbound : (0 + 1) * 16 ^ cs.length ≤ 2 ^ 32 := by
    rw [Nat.zero_add, Nat.one_mul]
    exact Nat.pow_le_pow_right (by decide) hlen
  have hlt : number 0 cs < 2 ^ 32 := Nat.lt_of_lt_of_le (number_lt h) hbound
  rw [u32Digits16_map_asciiByte h hbound, Option.map_some, Option.some.injEq, ← UInt32.toNat_inj,
    UInt32.toNat_ofNat_of_lt' hlt]
  exact eq_comm

/-- What is read consists of digits. -/
theorem digits_of_read {cs : List Char} {n : UInt32}
    (h : (u32Digits16 0 (cs.flatMap String.utf8EncodeChar)).map UInt32.ofNat = some n) :
    (∀ c ∈ cs, isHexDigit c = true) ∧ cs.flatMap String.utf8EncodeChar = cs.map asciiByte := by
  obtain ⟨m, hm, -⟩ := Option.map_eq_some_iff.mp h
  have hdigits : ∀ c ∈ cs, isHexDigit c = true :=
    fun c hc => isHexDigit_of_bytes (isSome_val_of_u32Digits16 hm) hc
  exact ⟨hdigits, flatMap_utf8EncodeChar hdigits⟩

/-- Only a plus sign starts with the byte of one. -/
theorem exists_utf8EncodeChar_eq (c : Char) :
    ∃ b bs, String.utf8EncodeChar c = b :: bs ∧ (b = 43 ↔ c = '+') := by
  by_cases hascii : c.toNat < 128
  · refine ⟨asciiByte c, [], utf8EncodeChar_of_lt hascii, ?_⟩
    exact forall_ascii (p := fun c => asciiByte c = 43 ↔ c = '+') (by decide +kernel) hascii
  · obtain ⟨b, bs, heq, hb⟩ := utf8EncodeChar_of_le (Nat.le_of_not_lt hascii)
    refine ⟨b, bs, heq, fun h => ?_, fun h => ?_⟩
    · rw [h] at hb
      exact absurd hb (by decide)
    · rw [h] at hascii
      exact absurd (by decide) hascii

/-- `from_str_radix` behind a plus sign. -/
theorem u32FromStrRadix16_plus {s : String} {cs : List Char} (hs : s.toList = '+' :: cs)
    (hne : cs ≠ []) : u32FromStrRadix16 s =
      (u32Digits16 0 (cs.flatMap String.utf8EncodeChar)).map UInt32.ofNat := by
  have hbytes : utf8 s = 43 :: cs.flatMap String.utf8EncodeChar := by
    rw [utf8_eq_flatMap, hs, List.flatMap_cons]
    rfl
  have hnonempty : (cs.flatMap String.utf8EncodeChar).isEmpty = false := by
    obtain ⟨c, cs, rfl⟩ := List.exists_cons_of_ne_nil hne
    obtain ⟨b, bs, hb, -⟩ := exists_utf8EncodeChar_eq c
    rw [List.flatMap_cons, hb]
    rfl
  rw [u32FromStrRadix16, hbytes]
  simp only [if_true, hnonempty, Bool.false_eq_true, if_false]

/-- `from_str_radix` without a sign. -/
theorem u32FromStrRadix16_of_ne_plus {s : String} {c : Char} {cs : List Char}
    (hs : s.toList = c :: cs) (hc : c ≠ '+') : u32FromStrRadix16 s =
      (u32Digits16 0 (s.toList.flatMap String.utf8EncodeChar)).map UInt32.ofNat := by
  obtain ⟨b, bs, hb, hplus⟩ := exists_utf8EncodeChar_eq c
  have hbytes : s.toList.flatMap String.utf8EncodeChar =
      b :: (bs ++ cs.flatMap String.utf8EncodeChar) := by
    rw [hs, List.flatMap_cons, hb, List.cons_append]
  rw [u32FromStrRadix16, utf8_eq_flatMap, hbytes]
  simp only [hplus, hc, if_false, List.isEmpty_cons, Bool.false_eq_true]

/-- Without a sign eight digits are accepted. -/
theorem reads_iff_isWord {s : String} {n : UInt32} {c : Char} {cs : List Char}
    (hs : s.toList = c :: cs) (hc : c ≠ '+') :
    s.utf8ByteSize = 8 ∧ u32FromStrRadix16 s = some n ↔ IsWord s n := by
  rw [← length_utf8, utf8_eq_flatMap, u32FromStrRadix16_of_ne_plus hs hc]
  constructor
  · rintro ⟨hlen, hread⟩
    obtain ⟨hdigits, hbytes⟩ := digits_of_read hread
    rw [hbytes] at hread hlen
    rw [List.length_map] at hlen
    exact ⟨hlen, hdigits, (read_digits hdigits (Nat.le_of_eq hlen)).mp hread⟩
  · rintro ⟨hlen, hdigits, hvalue⟩
    rw [flatMap_utf8EncodeChar hdigits, List.length_map]
    exact ⟨hlen, (read_digits hdigits (Nat.le_of_eq hlen)).mpr hvalue⟩

/-- Behind a sign seven digits are accepted. -/
theorem reads_iff_isPlusWord {s : String} {n : UInt32} {cs : List Char}
    (hs : s.toList = '+' :: cs) :
    s.utf8ByteSize = 8 ∧ u32FromStrRadix16 s = some n ↔ IsPlusWord s n := by
  have hbytes : (utf8 s).length = (cs.flatMap String.utf8EncodeChar).length + 1 := by
    rw [utf8_eq_flatMap, hs, List.flatMap_cons]
    exact List.length_cons
  rw [← length_utf8, hbytes]
  constructor
  · rintro ⟨hlen, hread⟩
    have hne : cs ≠ [] := by
      rintro rfl
      cases hlen
    rw [u32FromStrRadix16_plus hs hne] at hread
    obtain ⟨hdigits, hmap⟩ := digits_of_read hread
    rw [hmap] at hread hlen
    rw [List.length_map] at hlen
    exact ⟨by rw [hs]; rfl, by rw [hs, List.length_cons, hlen], by rwa [hs],
      by rw [hs]; exact (read_digits hdigits (by omega)).mp hread⟩
  · rintro ⟨-, hlen, hdigits, hvalue⟩
    rw [hs] at hlen hdigits hvalue
    rw [List.length_cons] at hlen
    rw [List.tail_cons] at hdigits hvalue
    have hne : cs ≠ [] := by
      rintro rfl
      cases hlen
    rw [u32FromStrRadix16_plus hs hne, flatMap_utf8EncodeChar hdigits, List.length_map]
    exact ⟨hlen, (read_digits hdigits (by omega)).mpr hvalue⟩

/-- Of eight bytes `from_str_radix` accepts eight digits, or a plus sign and seven. -/
theorem u32FromStrRadix16_eq_some_iff {s : String} {n : UInt32} :
    s.utf8ByteSize = 8 ∧ u32FromStrRadix16 s = some n ↔ IsWord s n ∨ IsPlusWord s n := by
  cases hs : s.toList with
  | nil =>
    have hsize : s.utf8ByteSize = 0 := by rw [← length_utf8, utf8_eq_flatMap, hs]; rfl
    rw [hsize]
    constructor
    · rintro ⟨hlen, -⟩
      cases hlen
    · rintro (h | h) <;> exact absurd (hs ▸ h.length) (by simp)
  | cons c cs =>
    by_cases hc : c = '+'
    · subst hc
      rw [reads_iff_isPlusWord hs]
      refine ⟨.inr, fun h => h.resolve_left fun hword => ?_⟩
      exact absurd (hword.digits '+' (by rw [hs]; simp)) (by decide)
    · rw [reads_iff_isWord hs hc]
      refine ⟨.inl, fun h => h.resolve_right fun hplus => hc ?_⟩
      have := hplus.plus
      rw [hs] at this
      exact Option.some.inj this

end Hex
