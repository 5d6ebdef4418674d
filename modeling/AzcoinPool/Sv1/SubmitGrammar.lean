import AzcoinPool.Lib.HexText
import AzcoinPool.Sv1.DomainMapper

/-!
# The grammar of `mining.submit`

The parameters of a share as a grammar of its own, `SubmitForm`, with the language of the 32-bit
words a parameter. The parser accepts the grammar whose words are those of `from_str_radix`
(`mapSubmitParams_eq_ok_iff`): eight hexadecimal digits, as its messages say ("must be 8 hex
chars"), but also a plus sign and seven digits. So it is the parser of the eight-digit grammar on
every request but those that are well formed up to such a sign
(`mapRequestToCommand_submit_iff`).
-/

open Hex

namespace AzcoinPool

/-! ## The grammar -/

/-- A language of hexadecimal words: the texts, and the numbers they denote. -/
abbrev WordLanguage := String → UInt32 → Prop

/-- The optional sixth element: when it is there it is a word. -/
inductive VersionBitsForm (word : WordLanguage) : Option Value → Option UInt32 → Prop where
  | absent : VersionBitsForm word none none
  | present {s : String} {n : UInt32} (h : word s n) :
    VersionBitsForm word (some (.string s)) (some n)

/-- The elements of a share, and the fields they denote. -/
structure SubmitForm (word : WordLanguage) (params : List Value) (username jobId : String)
    (extraNonce2 : Bytes) (ntime nonce : UInt32) (versionBits : Option UInt32) : Prop where
  username : params[0]? = some (.string username)
  jobId : params[1]? = some (.string jobId)
  extraNonce2 : ∃ s : String, params[2]? = some (.string s) ∧ s.toList.length % 2 = 0 ∧
    (∀ c ∈ s.toList, isHexDigit c = true) ∧ extraNonce2 = pairBytes s.toList
  ntime : ∃ s, params[3]? = some (.string s) ∧ word s ntime
  nonce : ∃ s, params[4]? = some (.string s) ∧ word s nonce
  versionBits : VersionBitsForm word params[5]? versionBits

/-- A request's parameters are those of a share command. -/
def SubmitRequest (word : WordLanguage) (req : Sv1Request) (cmd : Sv1DomainCommand) : Prop :=
  ∃ params username jobId extraNonce2 ntime nonce versionBits,
    req.params = some (.array params) ∧
    SubmitForm word params username jobId extraNonce2 ntime nonce versionBits ∧
    cmd = .submitShare username jobId extraNonce2 ntime nonce versionBits

/-- The words `from_str_radix` accepts. -/
def RustWord : WordLanguage := fun s n => IsWord s n ∨ IsPlusWord s n

/-! ## What the parser accepts -/

theorem asStr_eq_some {v : Value} {s : String} : v.asStr = some s ↔ v = .string s := by
  cases v <;> simp [Value.asStr]

theorem asArray_eq_some {v : Value} {items : List Value} :
    v.asArray = some items ↔ v = .array items := by
  cases v <;> simp [Value.asArray]

theorem submitParam_eq_ok {params : List Value} {i : Nat} {e s : String} :
    submitParam params i e = .ok s ↔ params[i]? = some (.string s) := by
  rw [submitParam, okOr_eq_ok, Option.bind_eq_some_iff]
  constructor
  · rintro ⟨v, hv, hs⟩
    rwa [asStr_eq_some.mp hs] at hv
  · intro h
    exact ⟨_, h, rfl⟩

theorem submitHexU32_eq_ok {hex label : String} {n : UInt32} :
    submitHexU32 hex label = .ok n ↔ RustWord hex n := by
  rw [RustWord, ← u32FromStrRadix16_eq_some_iff, submitHexU32]
  split
  · next h => simp [h]
  · next h => rw [okOr_eq_ok, and_iff_right (Decidable.not_not.mp h)]

theorem parseHexU32_eq_ok {value : Value} {label : String} {n : UInt32} :
    parseHexU32 value label = .ok n ↔ ∃ s, value = .string s ∧ RustWord s n := by
  rw [parseHexU32, Except.bind_eq_ok]
  constructor
  · rintro ⟨s, hs, h⟩
    refine ⟨s, asStr_eq_some.mp (okOr_eq_ok.mp hs), ?_⟩
    rw [RustWord, ← u32FromStrRadix16_eq_some_iff]
    split at h
    · cases h
    · next hlen => exact ⟨Decidable.not_not.mp hlen, okOr_eq_ok.mp h⟩
  · rintro ⟨s, rfl, h⟩
    rw [RustWord, ← u32FromStrRadix16_eq_some_iff] at h
    exact ⟨s, rfl, by rw [if_neg (Decidable.not_not.mpr h.1), okOr_eq_ok]; exact h.2⟩

theorem submitVersionBits_eq_ok {params : List Value} {versionBits : Option UInt32} :
    submitVersionBits params = .ok versionBits ↔
      VersionBitsForm RustWord params[5]? versionBits := by
  rw [submitVersionBits]
  cases params[5]? with
  | none =>
    constructor
    · intro h
      cases h
      exact .absent
    · intro h
      cases h
      rfl
  | some value =>
    simp only
    constructor
    · intro h
      cases hword : parseHexU32 value "mining.submit param 5 (version_bits)" with
      | error e => rw [hword] at h; cases h
      | ok n =>
        rw [hword] at h
        cases h
        obtain ⟨s, rfl, hs⟩ := parseHexU32_eq_ok.mp hword
        exact .present hs
    · intro h
      cases h with
      | present hs => rw [parseHexU32_eq_ok.mpr ⟨_, rfl, hs⟩]; rfl

/-- The parser accepts the grammar with the words of `from_str_radix`. -/
theorem mapSubmitParams_eq_ok_iff {req : Sv1Request} {cmd : Sv1DomainCommand} :
    mapSubmitParams req = .ok cmd ↔ SubmitRequest RustWord req cmd := by
  rw [mapSubmitParams]
  constructor
  · intro h
    obtain ⟨params, hparams, h⟩ := Except.bind_eq_ok.mp h
    obtain ⟨v, hv, harray⟩ := Option.bind_eq_some_iff.mp (okOr_eq_ok.mp hparams)
    rw [asArray_eq_some.mp harray] at hv
    split at h
    · cases h
    · obtain ⟨username, husername, h⟩ := Except.bind_eq_ok.mp h
      obtain ⟨jobId, hjobId, h⟩ := Except.bind_eq_ok.mp h
      obtain ⟨extraNonce2Hex, hextraNonce2Hex, h⟩ := Except.bind_eq_ok.mp h
      obtain ⟨ntimeHex, hntimeHex, h⟩ := Except.bind_eq_ok.mp h
      obtain ⟨nonceHex, hnonceHex, h⟩ := Except.bind_eq_ok.mp h
      obtain ⟨extraNonce2, hextraNonce2, h⟩ := Except.bind_eq_ok.mp h
      obtain ⟨ntime, hntime, h⟩ := Except.bind_eq_ok.mp h
      obtain ⟨nonce, hnonce, h⟩ := Except.bind_eq_ok.mp h
      obtain ⟨versionBits, hversionBits, h⟩ := Except.bind_eq_ok.mp h
      cases h
      have hdecode : Hex.decode extraNonce2Hex = .ok extraNonce2 :=
        Except.toOption_eq_some.mp (okOr_eq_ok.mp hextraNonce2)
      exact ⟨params, username, jobId, extraNonce2, ntime, nonce, versionBits, hv,
        { username := submitParam_eq_ok.mp husername
          jobId := submitParam_eq_ok.mp hjobId
          extraNonce2 := ⟨extraNonce2Hex, submitParam_eq_ok.mp hextraNonce2Hex,
            decode_eq_ok_iff.mp hdecode⟩
          ntime := ⟨ntimeHex, submitParam_eq_ok.mp hntimeHex, submitHexU32_eq_ok.mp hntime⟩
          nonce := ⟨nonceHex, submitParam_eq_ok.mp hnonceHex, submitHexU32_eq_ok.mp hnonce⟩
          versionBits := submitVersionBits_eq_ok.mp hversionBits }, rfl⟩
  · rintro ⟨params, username, jobId, extraNonce2, ntime, nonce, versionBits, hparams, hform, rfl⟩
    obtain ⟨extraNonce2Hex, hextraNonce2Hex, hextraNonce2⟩ := hform.extraNonce2
    obtain ⟨ntimeHex, hntimeHex, hntime⟩ := hform.ntime
    obtain ⟨nonceHex, hnonceHex, hnonce⟩ := hform.nonce
    have hlen : ¬params.length < 5 := by
      obtain ⟨hlt, -⟩ := List.getElem?_eq_some_iff.mp hnonceHex
      omega
    refine Except.bind_eq_ok.mpr ⟨params, by rw [hparams]; rfl, ?_⟩
    rw [if_neg hlen]
    refine Except.bind_eq_ok.mpr ⟨username, submitParam_eq_ok.mpr hform.username, ?_⟩
    refine Except.bind_eq_ok.mpr ⟨jobId, submitParam_eq_ok.mpr hform.jobId, ?_⟩
    refine Except.bind_eq_ok.mpr ⟨extraNonce2Hex, submitParam_eq_ok.mpr hextraNonce2Hex, ?_⟩
    refine Except.bind_eq_ok.mpr ⟨ntimeHex, submitParam_eq_ok.mpr hntimeHex, ?_⟩
    refine Except.bind_eq_ok.mpr ⟨nonceHex, submitParam_eq_ok.mpr hnonceHex, ?_⟩
    refine Except.bind_eq_ok.mpr ⟨extraNonce2, by rw [decode_eq_ok_iff.mpr hextraNonce2]; rfl, ?_⟩
    refine Except.bind_eq_ok.mpr ⟨ntime, submitHexU32_eq_ok.mpr hntime, ?_⟩
    refine Except.bind_eq_ok.mpr ⟨nonce, submitHexU32_eq_ok.mpr hnonce, ?_⟩
    exact Except.bind_eq_ok.mpr ⟨versionBits, submitVersionBits_eq_ok.mpr hform.versionBits, rfl⟩

/-- A `mining.submit` becomes the share command the grammar gives it. -/
theorem mapRequestToCommand_submit {req : Sv1Request} (hmethod : req.method = "mining.submit")
    (cmd : Sv1DomainCommand) :
    mapRequestToCommand req = .ok (some cmd) ↔ SubmitRequest RustWord req cmd := by
  rw [← mapSubmitParams_eq_ok_iff]
  simp only [mapRequestToCommand, hmethod]
  cases mapSubmitParams req with
  | error e => simp [Except.map]
  | ok c => simp [Except.map]

/-! ## The sign -/

/-- The positions of the 32-bit words: time, nonce and version bits. -/
def wordPositions : List Nat := [3, 4, 5]

/-- An element starts with a plus sign. -/
def PlusAt (params : List Value) (i : Nat) : Prop :=
  ∃ s, params[i]? = some (.string s) ∧ s.toList.head? = some '+'

/-- A share whose words are those of `from_str_radix`, with a plus sign in front of one of them. -/
def SignedSubmit (req : Sv1Request) : Prop :=
  ∃ params username jobId extraNonce2 ntime nonce versionBits,
    req.params = some (.array params) ∧
    SubmitForm RustWord params username jobId extraNonce2 ntime nonce versionBits ∧
    ∃ i ∈ wordPositions, PlusAt params i

namespace SubmitForm
variable {word word' : WordLanguage} {params : List Value} {username jobId : String}
  {extraNonce2 : Bytes} {ntime nonce : UInt32} {versionBits : Option UInt32}

/-- The words of a form may be read in another language that has them. -/
theorem imp (h : SubmitForm word params username jobId extraNonce2 ntime nonce versionBits)
    (hword : ∀ i ∈ wordPositions, ∀ s n, params[i]? = some (.string s) → word s n → word' s n) :
    SubmitForm word' params username jobId extraNonce2 ntime nonce versionBits where
  username := h.username
  jobId := h.jobId
  extraNonce2 := h.extraNonce2
  ntime := by
    obtain ⟨s, hs, hn⟩ := h.ntime
    exact ⟨s, hs, hword 3 (by decide) s ntime hs hn⟩
  nonce := by
    obtain ⟨s, hs, hn⟩ := h.nonce
    exact ⟨s, hs, hword 4 (by decide) s nonce hs hn⟩
  versionBits := by
    have hbits := h.versionBits
    have hword5 := hword 5 (by decide)
    generalize params[5]? = value at hbits hword5
    cases hbits with
    | absent => exact .absent
    | present hn => exact .present (hword5 _ _ rfl hn)

/-- Every element of a word's position is a word of the language. -/
theorem exists_word (h : SubmitForm word params username jobId extraNonce2 ntime nonce versionBits)
    {i : Nat} (hi : i ∈ wordPositions) {s : String} (hs : params[i]? = some (.string s)) :
    ∃ n, word s n := by
  have hstring {a b : String} (hab : some (Value.string a) = some (.string b)) : a = b := by
    cases hab
    rfl
  simp only [wordPositions, List.mem_cons, List.not_mem_nil, or_false] at hi
  rcases hi with rfl | rfl | rfl
  · obtain ⟨t, ht, hn⟩ := h.ntime
    exact ⟨ntime, hstring (ht.symm.trans hs) ▸ hn⟩
  · obtain ⟨t, ht, hn⟩ := h.nonce
    exact ⟨nonce, hstring (ht.symm.trans hs) ▸ hn⟩
  · have hbits := h.versionBits
    rw [hs] at hbits
    cases hbits with
    | present hn => exact ⟨_, hn⟩

end SubmitForm

/-- The parser accepts the grammar of eight-digit words, except for the requests that are well
formed with a plus sign in front of the time, the nonce or the version bits. -/
theorem mapRequestToCommand_submit_iff (req : Sv1Request)
    (hmethod : req.method = "mining.submit") :
    (∀ cmd, mapRequestToCommand req = .ok (some cmd) ↔ SubmitRequest IsWord req cmd) ↔
      ¬SignedSubmit req := by
  simp only [mapRequestToCommand_submit hmethod]
  constructor
  · rintro h ⟨params, _, _, _, _, _, _, hparams, hform, i, hi, s, hs, hplus⟩
    obtain ⟨params', _, _, _, _, _, _, hparams', hform', -⟩ :=
      (h _).mp ⟨params, _, _, _, _, _, _, hparams, hform, rfl⟩
    cases hparams.symm.trans hparams'
    obtain ⟨n, hword⟩ := hform'.exists_word hi hs
    exact absurd (hword.digits '+' (List.mem_of_mem_head? hplus)) (by decide)
  · intro h cmd
    constructor
    · rintro ⟨params, _, _, _, _, _, _, hparams, hform, hcmd⟩
      refine ⟨params, _, _, _, _, _, _, hparams, hform.imp ?_, hcmd⟩
      intro i hi s n hs hn
      refine hn.resolve_right fun hplus => h ?_
      exact ⟨params, _, _, _, _, _, _, hparams, hform, i, hi, s, hs, hplus.plus⟩
    · rintro ⟨params, _, _, _, _, _, _, hparams, hform, hcmd⟩
      exact ⟨params, _, _, _, _, _, _, hparams, hform.imp fun _ _ _ _ _ => .inl, hcmd⟩

/-- A request of a miner, with the texts of its time and nonce and what follows them. -/
def fixtureSubmit (ntime nonce : String) (rest : List Value) : Sv1Request where
  id := some (.ofU32 4)
  method := "mining.submit"
  params := some (.array
    ([.string "u.w", .string "100", .string "11223344", .string ntime, .string nonce] ++ rest))

theorem mapRequestToCommand_fixtureSubmit : ∃ cmd,
    mapRequestToCommand (fixtureSubmit "6553f100" "12345678" []) = .ok (some cmd) ∧
      SubmitRequest IsWord (fixtureSubmit "6553f100" "12345678" []) cmd := by
  have hcode : mapRequestToCommand (fixtureSubmit "6553f100" "12345678" []) =
      .ok (some (.submitShare "u.w" "100" [0x11, 0x22, 0x33, 0x44] 0x6553f100 0x12345678
        none)) := by
    decide +kernel
  have hunsigned : ¬SignedSubmit (fixtureSubmit "6553f100" "12345678" []) := by
    rintro ⟨params, _, _, _, _, _, _, hparams, -, i, hi, s, hs, hplus⟩
    cases hparams
    simp only [wordPositions, List.mem_cons, List.not_mem_nil, or_false] at hi
    rcases hi with rfl | rfl | rfl
    · cases hs
      exact absurd hplus (by decide)
    · cases hs
      exact absurd hplus (by decide)
    · cases hs
  exact ⟨_, hcode, ((mapRequestToCommand_submit_iff _ rfl).mpr hunsigned _).mp hcode⟩

/-- A nonce of a plus sign and seven digits becomes a share, which the grammar does not have. -/
theorem not_submitRequest_of_plus :
    ¬∀ (req : Sv1Request) (cmd : Sv1DomainCommand), req.method = "mining.submit" →
      (mapRequestToCommand req = .ok (some cmd) ↔ SubmitRequest IsWord req cmd) := by
  intro h
  have hcode : mapRequestToCommand (fixtureSubmit "6553f100" "+1234567" []) =
      .ok (some (.submitShare "u.w" "100" [0x11, 0x22, 0x33, 0x44] 0x6553f100 0x01234567
        none)) := by
    decide +kernel
  obtain ⟨params, _, _, _, _, _, _, hparams, hform, -⟩ := (h _ _ rfl).mp hcode
  cases hparams
  obtain ⟨n, hword⟩ := hform.exists_word (i := 4) (by decide) rfl
  exact absurd (hword.digits '+' (by decide)) (by decide)

end AzcoinPool
