import AzcoinPool.Lib.RustStd

/-!
# Lines of text

The lines of a text, cut behind every separator (`splitInclusive`), and how they lie in the UTF-8
bytes of the text: the newline byte is in no other character's encoding, so the bytes up to a
newline byte are those of a line (`exists_of_utf8_eq_append`), and bytes that are text of their own
at the start of a text are a prefix of it (`exists_of_utf8_prefix`).
-/

/-! ## Cutting behind a separator -/

section
variable {α : Type*} [DecidableEq α]

/-- The pieces of a list, each up to and with a separator, the last one possibly without. -/
def splitInclusive (sep : α) : List α → List (List α)
  | [] => []
  | a :: l =>
    if a = sep then [a] :: splitInclusive sep l
    else
      match splitInclusive sep l with
      | [] => [[a]]
      | piece :: pieces => (a :: piece) :: pieces

theorem splitInclusive_append_sep {sep : α} {piece : List α} (h : sep ∉ piece) (l : List α) :
    splitInclusive sep (piece ++ sep :: l) = (piece ++ [sep]) :: splitInclusive sep l := by
  induction piece with
  | nil => simp [splitInclusive]
  | cons a piece ih =>
    have ha : a ≠ sep := fun h' => h (h' ▸ List.mem_cons_self)
    have hpiece : sep ∉ piece := fun h' => h (List.mem_cons_of_mem _ h')
    rw [List.cons_append, splitInclusive, if_neg ha, ih hpiece, List.cons_append]

theorem splitInclusive_of_not_mem {sep : α} {piece : List α} (h : sep ∉ piece) :
    splitInclusive sep piece = if piece = [] then [] else [piece] := by
  induction piece with
  | nil => rfl
  | cons a piece ih =>
    have ha : a ≠ sep := fun h' => h (h' ▸ List.mem_cons_self)
    have hpiece : sep ∉ piece := fun h' => h (List.mem_cons_of_mem _ h')
    rw [splitInclusive, if_neg ha, ih hpiece]
    by_cases hnil : piece = []
    · simp [hnil]
    · simp [hnil]

/-- A list without the separator, or its first piece and the rest. -/
theorem exists_piece (sep : α) (l : List α) :
    sep ∉ l ∨ ∃ piece rest, sep ∉ piece ∧ l = piece ++ sep :: rest := by
  by_cases h : sep ∈ l
  · obtain ⟨piece, rest, rfl, hpiece⟩ := List.eq_append_cons_of_mem h
    exact .inr ⟨piece, rest, hpiece, rfl⟩
  · exact .inl h

/-- The first piece is determined. -/
theorem append_sep_inj {sep : α} {l l' r r' : List α} (h : sep ∉ l) (h' : sep ∉ l')
    (heq : l ++ sep :: r = l' ++ sep :: r') : l = l' ∧ r = r' := by
  have hcut := congrArg (splitInclusive sep) heq
  rw [splitInclusive_append_sep h, splitInclusive_append_sep h'] at hcut
  have hl : l = l' := List.append_cancel_right (List.cons.inj hcut).1
  subst hl
  exact ⟨rfl, (List.cons.inj (List.append_cancel_left heq)).2⟩

end

/-! ## UTF-8 -/

/-- `String::from_utf8` with the error dropped. -/
def fromUtf8 (bs : Bytes) : Option String := String.fromUTF8? bs.toByteArray

/-- The bytes of a list of characters. -/
def encodeChars (cs : List Char) : Bytes := cs.flatMap String.utf8EncodeChar

@[simp] theorem encodeChars_nil : encodeChars [] = [] := rfl

@[simp] theorem encodeChars_cons (c : Char) (cs : List Char) :
    encodeChars (c :: cs) = String.utf8EncodeChar c ++ encodeChars cs := rfl

@[simp] theorem encodeChars_append (cs ds : List Char) :
    encodeChars (cs ++ ds) = encodeChars cs ++ encodeChars ds := by
  simp [encodeChars]

theorem utf8_eq_encodeChars (s : String) : utf8 s = encodeChars s.toList := by
  rw [encodeChars, ← utf8_ofList, String.ofList_toList]

/-- The newline byte is in no other character's encoding. -/
theorem newline_not_mem_utf8EncodeChar {c : Char} (h : c ≠ '\n') :
    (10 : UInt8) ∉ String.utf8EncodeChar c := by
  have hv : c.val.toNat ≠ 10 := fun hv => h (Char.ext (UInt32.toNat_inj.mp hv))
  have hbyte {n : Nat} (hn : 10 ≠ n % 256) : (10 : UInt8) ≠ UInt8.ofNat n := by
    intro h'
    have := congrArg UInt8.toNat h'
    rw [UInt8.toNat_ofNat'] at this
    exact hn this
  simp only [String.utf8EncodeChar]
  split
  · rw [List.mem_singleton]
    exact hbyte (by omega)
  · split
    · simp only [List.mem_cons, List.not_mem_nil, or_false, not_or]
      exact ⟨hbyte (by omega), hbyte (by omega)⟩
    · split
      · simp only [List.mem_cons, List.not_mem_nil, or_false, not_or]
        exact ⟨hbyte (by omega), hbyte (by omega), hbyte (by omega)⟩
      · simp only [List.mem_cons, List.not_mem_nil, or_false, not_or]
        exact ⟨hbyte (by omega), hbyte (by omega), hbyte (by omega), hbyte (by omega)⟩

theorem newline_mem_encodeChars {cs : List Char} : (10 : UInt8) ∈ encodeChars cs ↔ '\n' ∈ cs := by
  constructor
  · intro h
    obtain ⟨c, hc, hmem⟩ := List.mem_flatMap.mp h
    by_contra hcs
    exact newline_not_mem_utf8EncodeChar (fun h' => hcs (h' ▸ hc)) hmem
  · intro h
    exact List.mem_flatMap.mpr ⟨'\n', h, by decide⟩

/-- The character an encoding starts with is determined. -/
theorem utf8EncodeChar_append_inj {c d : Char} {bs bs' : Bytes}
    (h : String.utf8EncodeChar c ++ bs = String.utf8EncodeChar d ++ bs') : c = d ∧ bs = bs' := by
  have hcd : c = d := by
    have hc := @ByteArray.utf8DecodeChar?_utf8EncodeChar_append bs.toByteArray c
    have hd := @ByteArray.utf8DecodeChar?_utf8EncodeChar_append bs'.toByteArray d
    rw [← List.toByteArray_append, h, List.toByteArray_append, hd] at hc
    exact (Option.some.inj hc).symm
  subst hcd
  exact ⟨rfl, List.append_cancel_left h⟩

/-- Text at the start of the bytes of a text is a prefix of it. -/
theorem exists_of_utf8_prefix {w cs : List Char} {bs : Bytes}
    (h : encodeChars cs = encodeChars w ++ bs) : ∃ z, cs = w ++ z ∧ bs = encodeChars z := by
  induction w generalizing cs with
  | nil => exact ⟨cs, rfl, h.symm⟩
  | cons c w ih =>
    cases cs with
    | nil =>
      rw [encodeChars_nil, encodeChars_cons, List.append_assoc] at h
      have hlen := congrArg List.length h
      have hpos := c.utf8Size_pos
      simp only [List.length_nil, List.length_append, String.length_utf8EncodeChar] at hlen
      omega
    | cons d cs =>
      rw [encodeChars_cons, encodeChars_cons, List.append_assoc] at h
      obtain ⟨rfl, hrest⟩ := utf8EncodeChar_append_inj h
      obtain ⟨z, rfl, rfl⟩ := ih hrest
      exact ⟨z, rfl, rfl⟩

/-- The bytes in front of the first newline byte are those of the first line. -/
theorem exists_of_utf8_eq_append {cs : List Char} {l bs : Bytes} (hl : 10 ∉ l)
    (h : encodeChars cs = l ++ 10 :: bs) :
    ∃ piece rest, cs = piece ++ '\n' :: rest ∧ '\n' ∉ piece ∧ encodeChars piece = l ∧
      encodeChars rest = bs := by
  rcases exists_piece '\n' cs with hcs | ⟨piece, rest, hpiece, rfl⟩
  · have hmem : (10 : UInt8) ∈ encodeChars cs := by rw [h]; simp
    exact absurd (newline_mem_encodeChars.mp hmem) hcs
  · have hpiece' : (10 : UInt8) ∉ encodeChars piece := fun h' =>
      hpiece (newline_mem_encodeChars.mp h')
    have hnl : String.utf8EncodeChar '\n' = [10] := by decide
    rw [encodeChars_append, encodeChars_cons, hnl, List.singleton_append] at h
    obtain ⟨h₁, h₂⟩ := append_sep_inj hpiece' hl h
    exact ⟨piece, rest, rfl, hpiece, h₁, h₂⟩

@[simp] theorem fromUtf8_encodeChars (cs : List Char) :
    fromUtf8 (encodeChars cs) = some (String.ofList cs) := by
  have hvalid : (encodeChars cs).toByteArray.IsValidUTF8 := ⟨cs, rfl⟩
  rw [fromUtf8, String.fromUTF8?, dif_pos hvalid]
  rfl

/-- Bytes that are text are the bytes of that text. -/
theorem fromUtf8_eq_some {bs : Bytes} {s : String} (h : fromUtf8 bs = some s) :
    bs = encodeChars s.toList := by
  rw [fromUtf8, String.fromUTF8?] at h
  split at h
  · cases h
    rw [← utf8_eq_encodeChars]
    change bs = bs.toByteArray.data.toList
    simp
  · cases h

/-- The text of no bytes is empty. -/
theorem encodeChars_eq_nil {cs : List Char} : encodeChars cs = [] ↔ cs = [] := by
  refine ⟨fun h => ?_, fun h => h ▸ rfl⟩
  cases cs with
  | nil => rfl
  | cons c cs =>
    have hlen := congrArg List.length h
    have hpos := c.utf8Size_pos
    simp only [encodeChars_cons, List.length_append, String.length_utf8EncodeChar,
      List.length_nil] at hlen
    omega

/-! ## The lines of a text -/

/-- The trimmed characters, when there are any. -/
def nonBlankLine (cs : List Char) : Option String :=
  if trimChars cs = [] then none else some (String.ofList (trimChars cs))

theorem nonBlankLine_toList (s : String) :
    nonBlankLine s.toList = if trim s = "" then none else some (trim s) := by
  rw [nonBlankLine, trim]
  by_cases h : trimChars s.toList = []
  · simp [h]
  · have hne : String.ofList (trimChars s.toList) ≠ "" := fun heq => h (by
      rw [← String.toList_ofList (l := trimChars s.toList), heq]; rfl)
    rw [if_neg h, if_neg hne]

/-- The lines of a text, trimmed, without the blank ones. -/
def textLines (cs : List Char) : List String := (splitInclusive '\n' cs).filterMap nonBlankLine

@[simp] theorem textLines_nil : textLines [] = [] := rfl

theorem textLines_line {piece : List Char} (h : '\n' ∉ piece) (rest : List Char) :
    textLines (piece ++ '\n' :: rest) =
      (nonBlankLine (piece ++ ['\n'])).toList ++ textLines rest := by
  rw [textLines, splitInclusive_append_sep h, List.filterMap_cons]
  cases nonBlankLine (piece ++ ['\n']) <;> rfl

theorem textLines_of_not_mem {cs : List Char} (h : '\n' ∉ cs) :
    textLines cs = (nonBlankLine cs).toList := by
  rw [textLines, splitInclusive_of_not_mem h]
  split
  · next hnil => rw [hnil]; rfl
  · rw [List.filterMap_cons]
    cases nonBlankLine cs <;> rfl

/-- White space in front of a line is trimmed. -/
theorem nonBlankLine_append {w : List Char} (hw : ∀ c ∈ w, isWhitespace c = true) (cs : List Char) :
    nonBlankLine (w ++ cs) = nonBlankLine cs := by
  have htrim : trimChars (w ++ cs) = trimChars cs := by
    rw [trimChars, List.dropWhile_append_of_pos hw, trimChars]
  rw [nonBlankLine, htrim, nonBlankLine]

/-- White space at the start of a text, within its first line, makes no difference to its lines. -/
theorem textLines_append {w : List Char} (hw : ∀ c ∈ w, isWhitespace c = true) (hnl : '\n' ∉ w)
    (cs : List Char) : textLines (w ++ cs) = textLines cs := by
  rcases exists_piece '\n' cs with hcs | ⟨piece, rest, hpiece, rfl⟩
  · rw [textLines_of_not_mem (by simp [hnl, hcs]), textLines_of_not_mem hcs,
      nonBlankLine_append hw]
  · rw [← List.append_assoc, textLines_line (by simp [hnl, hpiece]), textLines_line hpiece,
      List.append_assoc, nonBlankLine_append hw]
