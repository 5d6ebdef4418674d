import AzcoinPool.Lib.HexText
import AzcoinPool.Sv1.MinerHeader
import Mathlib.Data.List.SplitLengths

/-!
# The byte order of the previous hash

The daemon writes the previous hash as 64 digits, the job holds its bytes reversed, the notification
swaps the bytes of each four-byte word, and the miner swaps them back. Reversing all the bytes and
then each word puts the words in the opposite order and leaves each word as it was
(`wordSwap_reverse_flatten`), so the notification carries the daemon's eight words of eight digits
in reverse, and the miner's header holds the daemon's bytes reversed (`prevHash_endToEnd`).
-/

namespace AzcoinPool

open Hex

/-! ## Words of bytes -/

theorem wordSwap_append {word : Bytes} (h : word.length = 4) (rest : Bytes) :
    wordSwap (word ++ rest) = word.reverse ++ wordSwap rest := by
  match word, h with
  | [a, b, c, d], _ => rfl

theorem wordSwap_flatten {words : List Bytes} (h : ∀ word ∈ words, word.length = 4) :
    wordSwap words.flatten = (words.map List.reverse).flatten := by
  induction words with
  | nil => rfl
  | cons word words ih =>
    obtain ⟨hword, hwords⟩ := List.forall_mem_cons.mp h
    rw [List.flatten_cons, wordSwap_append hword, ih hwords, List.map_cons, List.flatten_cons]

/-- The reversal of the bytes and the reversal of each word leave the words in reverse order. -/
theorem wordSwap_reverse_flatten {words : List Bytes} (h : ∀ word ∈ words, word.length = 4) :
    wordSwap words.flatten.reverse = words.reverse.flatten := by
  rw [List.reverse_flatten, wordSwap_flatten fun word hword => ?_]
  · simp
  · simp only [List.mem_reverse, List.mem_map] at hword
    obtain ⟨word, hmem, rfl⟩ := hword
    rw [List.length_reverse, h word hmem]

/-! ## Words of digits -/

/-- The eight words of eight digits of a text. -/
def hashWords (s : String) : List (List Char) := (List.replicate 8 8).splitLengths s.toList

theorem flatten_hashWords {s : String} (h : s.toList.length = 64) :
    (hashWords s).flatten = s.toList :=
  List.flatten_splitLengths _ _ (Nat.le_of_eq h)

theorem length_of_mem_hashWords {s : String} (h : s.toList.length = 64) :
    ∀ word ∈ hashWords s, word.length = 8 := by
  intro word hword
  have hlengths := List.map_splitLengths_length s.toList (List.replicate 8 8) (Nat.le_of_eq h.symm)
  have hmem := List.mem_map_of_mem (f := List.length) hword
  rw [hashWords, hlengths] at hmem
  exact List.eq_of_mem_replicate hmem

theorem pairBytes_append {cs : List Char} (h : cs.length % 2 = 0) (rest : List Char) :
    pairBytes (cs ++ rest) = pairBytes cs ++ pairBytes rest := by
  induction cs using pairBytes.induct with
  | case1 a b cs ih =>
    have heven : cs.length % 2 = 0 := by
      simp only [List.length_cons] at h
      omega
    simp only [List.cons_append, pairBytes, ih heven]
  | case2 cs hcs =>
    rcases eq_nil_or_singleton hcs with rfl | ⟨a, rfl⟩
    · rfl
    · simp at h

theorem pairBytes_flatten {words : List (List Char)} (h : ∀ word ∈ words, word.length % 2 = 0) :
    pairBytes words.flatten = (words.map pairBytes).flatten := by
  induction words with
  | nil => rfl
  | cons word words ih =>
    obtain ⟨hword, hwords⟩ := List.forall_mem_cons.mp h
    rw [List.flatten_cons, pairBytes_append hword, ih hwords, List.map_cons, List.flatten_cons]

/-- Written again, a digit is lower-cased. -/
theorem lowerHexDigit_digitValue {c : Char} (h : isHexDigit c = true) :
    lowerHexDigit (digitValue c) = c.toLower :=
  forall_ascii (p := fun c => isHexDigit c = true → lowerHexDigit (digitValue c) = c.toLower)
    (by decide +kernel) (lt_of_isHexDigit h) h

/-- Bytes read off digits are written as the lower-cased digits. -/
theorem flatMap_encodeByte_pairBytes {cs : List Char} (heven : cs.length % 2 = 0)
    (h : ∀ c ∈ cs, isHexDigit c = true) :
    (pairBytes cs).flatMap encodeByte = cs.map Char.toLower := by
  induction cs using pairBytes.induct with
  | case1 a b cs ih =>
    obtain ⟨ha, hb, hcs⟩ : isHexDigit a = true ∧ isHexDigit b = true ∧
        ∀ c ∈ cs, isHexDigit c = true := by simpa using h
    have heven' : cs.length % 2 = 0 := by
      simp only [List.length_cons] at heven
      omega
    have hva := digitValue_lt ha
    have hvb := digitValue_lt hb
    have hbyte : (UInt8.ofNat (16 * digitValue a + digitValue b)).toNat =
        16 * digitValue a + digitValue b :=
      UInt8.toNat_ofNat_of_lt' (by change _ < 256; omega)
    rw [pairBytes, List.flatMap_cons, ih heven' hcs, encodeByte_eq, hbyte,
      show (16 * digitValue a + digitValue b) / 16 = digitValue a by omega,
      show (16 * digitValue a + digitValue b) % 16 = digitValue b by omega,
      lowerHexDigit_digitValue ha, lowerHexDigit_digitValue hb]
    rfl
  | case2 cs hcs =>
    rcases eq_nil_or_singleton hcs with rfl | ⟨a, rfl⟩
    · rfl
    · simp at heven

/-! ## The previous hash -/

/-- Of 64 digits, the mapper makes the bytes they denote, reversed. -/
theorem decodePrevHash_eq_ok {s : String} (hlen : s.toList.length = 64)
    (hdigits : ∀ c ∈ s.toList, isHexDigit c = true) :
    ∃ prevHash, decodePrevHash s = .ok prevHash ∧
      prevHash.bytes = (pairBytes s.toList).reverse := by
  have hdecode : decodeHexField "prev_hash" s = .ok (pairBytes s.toList) :=
    decodeHexField_eq_ok.mpr (decode_eq_ok_iff.mpr ⟨by omega, hdigits, rfl⟩)
  have hbytes : (pairBytes s.toList).length = 32 := by
    rw [length_pairBytes, hlen]
  refine ⟨(⟨pairBytes s.toList, hbytes⟩ : Bytes32).reverse, ?_, rfl⟩
  rw [decodePrevHash, hdecode]
  simp [bind, Except.bind, Bytes32.ofList?, hbytes]

/-- The notification carries the words of the daemon's text in reverse order. -/
theorem hexEncodePrevhashSv1_eq {s : String} (hlen : s.toList.length = 64)
    (hdigits : ∀ c ∈ s.toList, isHexDigit c = true) {prevHash : Bytes32}
    (h : prevHash.bytes = (pairBytes s.toList).reverse) :
    hexEncodePrevhashSv1 prevHash =
      String.ofList ((hashWords s).reverse.flatten.map Char.toLower) := by
  have hwords := length_of_mem_hashWords hlen
  have hperm : (hashWords s).reverse.flatten.Perm s.toList :=
    (List.reverse_perm _).flatten.trans (.of_eq (flatten_hashWords hlen))
  have hbytes : wordSwap prevHash.bytes = pairBytes (hashWords s).reverse.flatten := by
    rw [h, ← flatten_hashWords hlen, pairBytes_flatten fun word hword => by rw [hwords word hword],
      wordSwap_reverse_flatten, ← List.map_reverse,
      pairBytes_flatten fun word hword => by rw [hwords word (List.mem_reverse.mp hword)]]
    intro bytes hmem
    obtain ⟨word, hword, rfl⟩ := List.mem_map.mp hmem
    rw [length_pairBytes, hwords word hword]
  rw [hexEncodePrevhashSv1, hbytes, encode, flatMap_encodeByte_pairBytes]
  · rw [hperm.length_eq, hlen]
  · exact fun c hc => hdigits c (hperm.mem_iff.mp hc)

/-- A header has the previous hash behind the four bytes of the version. -/
theorem prevHash_of_buildBlockHeader (version : UInt32) (prevHash root : Bytes32)
    (ntime nbits nonce : UInt32) :
    ((buildBlockHeader version prevHash root ntime nbits nonce).drop 4).take 32 =
      prevHash.bytes := by
  simp only [buildBlockHeader, List.append_assoc]
  rw [List.drop_left' (length_toLeBytes version), List.take_left' prevHash.length_bytes]

/-- End to end: of 64 digits of the daemon, the job holds the bytes reversed, a mapped job holds
them as its previous hash, the notification carries the daemon's words in reverse order, and the
miner who swaps the bytes of each word gets what stands in the header at offset 4. -/
theorem prevHash_endToEnd {s : String} (hlen : s.toList.length = 64)
    (hdigits : ∀ c ∈ s.toList, isHexDigit c = true) :
    ∃ prevHash, decodePrevHash s = .ok prevHash ∧
      prevHash.bytes = (pairBytes s.toList).reverse ∧
      hexEncodePrevhashSv1 prevHash =
        String.ofList ((hashWords s).reverse.flatten.map Char.toLower) ∧
      (∀ bitcoin template payoutScriptPubkey job, template.previousblockhash.text = s →
        templateToJob bitcoin template payoutScriptPubkey = .ok job → job.prevHash = prevHash) ∧
      ∀ job : Job, job.prevHash = prevHash → ∃ work,
        readNotify (buildMiningNotify job) = some work ∧
        work.prevhash = hexEncodePrevhashSv1 prevHash ∧
        ∀ version root ntime nbits nonce,
          ((buildBlockHeader version job.prevHash root ntime nbits nonce).drop 4).take 32 =
            prevHash.bytes ∧
          (unhex work.prevhash).map wordSwap = some
            (((buildBlockHeader version job.prevHash root ntime nbits nonce).drop 4).take 32) := by
  obtain ⟨prevHash, hdecode, hbytes⟩ := decodePrevHash_eq_ok hlen hdigits
  refine ⟨prevHash, hdecode, hbytes, hexEncodePrevhashSv1_eq hlen hdigits hbytes, ?_, ?_⟩
  · rintro bitcoin template payoutScriptPubkey job rfl hjob
    have hmapped := (MappedJob.of_templateToJob hjob).prevHash
    exact Except.ok.inj (hmapped.symm.trans hdecode)
  · rintro job rfl
    refine ⟨_, readNotify_buildMiningNotify job, rfl, fun version root ntime nbits nonce => ?_⟩
    rw [prevHash_of_buildBlockHeader]
    refine ⟨rfl, ?_⟩
    change (unhex (Hex.encode (wordSwap job.prevHash.bytes))).map wordSwap = _
    rw [unhex_encode, Option.map_some, wordSwap_wordSwap (by simp)]

/-- The digits count upwards, some of them in upper case: the notification has the words from the
last to the first. -/
theorem prevHash_endToEnd_counting :
    ∃ prevHash,
      decodePrevHash "000102030405060708090A0B0C0D0E0F101112131415161718191A1B1C1D1E1F" =
        .ok prevHash ∧
      hexEncodePrevhashSv1 prevHash =
        "1c1d1e1f18191a1b1415161710111213" ++ "0c0d0e0f08090a0b0405060700010203" := by
  obtain ⟨prevHash, hdecode, -, hwire, -⟩ := prevHash_endToEnd
    (s := "000102030405060708090A0B0C0D0E0F101112131415161718191A1B1C1D1E1F") (by simp)
    (by simp [isHexDigit])
  exact ⟨prevHash, hdecode, hwire.trans (by decide +kernel)⟩

end AzcoinPool
