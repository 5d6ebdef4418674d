import AzcoinPool.Coin.CoinbaseParts
import AzcoinPool.Coin.CoinbaseScript

/-!
# Which placeholder is cut

The mapper cuts the coinbase at the first occurrence of the placeholder, and the template's height
and flags stand in front of the one it appended. The height is nine bytes at most and the opcode of
the flags is not in the placeholder's middle, so an occurrence in front is the height
`0xefbeadde0cb0cefa`, or it lies in the length bytes of the flags and the flags themselves
(`infix_scriptFront_iff`). Where there is none, the completed script pushes the height and the flags
with the extranonces, and where there is one, or the flags do not fit in a push, it does not
(`keepsScript_iff`).
-/

open Bitcoin

namespace AzcoinPool

/-! ## Occurrences in front of the appended placeholder -/

/-- The script in front of the appended placeholder: the push of the height, the opcode and length
of the flags' push, the flags. -/
def scriptFront (height : UInt64) (flags : Bytes) : Bytes :=
  Script.push (encodeScriptNum height) ++ (Script.pushHeader (flags.length + 8) ++ flags)

/-- Eight bytes behind the front complete it to the pushes of the height and of the flags with the
eight bytes. -/
theorem scriptFront_append (height : UInt64) (flags : Bytes) {x : Bytes} (hx : x.length = 8) :
    scriptFront height flags ++ x =
      Script.push (encodeScriptNum height) ++ Script.push (flags ++ x) := by
  rw [scriptFront, Script.push, Script.push, List.length_append, hx]
  simp only [List.append_assoc]

theorem placeholderScript_eq_front (height : UInt64) (flags : Option Bytes) :
    placeholderScript height flags =
      scriptFront height (flags.getD []) ++ sv1ExtranoncePlaceholder := by
  have hne : flags.getD [] ++ sv1ExtranoncePlaceholder ≠ [] := by simp [sv1ExtranoncePlaceholder]
  rw [scriptFront_append height (flags.getD []) rfl, placeholderScript,
    buildCoinbaseScriptSig_eq_flatMap]
  simp [hne, Option.filter_some]

/-- The last byte of a height has its top bit clear. -/
theorem lt_of_getLast?_encodeScriptNum {height : UInt64} {top : UInt8}
    (h : top ∈ (encodeScriptNum height).getLast?) : top.toNat < 128 := by
  obtain ⟨hmin, hval⟩ := encodeScriptNum_spec height
  obtain ⟨init, hinit⟩ := List.getLast?_eq_some_iff.mp h
  rw [hinit] at hmin hval
  exact Script.lt_of_minimalNum hmin hval

/-- One height is written as the placeholder. -/
theorem placeholder_infix_encodeScriptNum_iff (height : UInt64) :
    sv1ExtranoncePlaceholder <:+: encodeScriptNum height ↔ height = 0xefbeadde0cb0cefa := by
  constructor
  · rintro ⟨before, after, h⟩
    have hlen := length_encodeScriptNum_le height
    rw [← h] at hlen
    simp only [List.length_append, sv1ExtranoncePlaceholder, List.length_cons, List.length_nil]
      at hlen
    cases after with
    | nil =>
      -- the placeholder does not end with the top bit clear
      have := @lt_of_getLast?_encodeScriptNum height 0xef
        (by rw [← h]; simp [sv1ExtranoncePlaceholder])
      exact absurd this (by decide)
    | cons last after =>
      rw [List.length_cons] at hlen
      obtain rfl : before = [] := List.length_eq_zero_iff.mp (by omega)
      obtain rfl : after = [] := List.length_eq_zero_iff.mp (by omega)
      have hval := (encodeScriptNum_spec height).2
      have htop := @lt_of_getLast?_encodeScriptNum height last (by rw [← h]; simp)
      rw [← h, List.nil_append, Script.decodeNum_concat, if_pos htop] at hval
      have hnat := Int.ofNat.inj hval
      rw [show Endian.leNat sv1ExtranoncePlaceholder = 0xefbeadde0cb0cefa by decide] at hnat
      have hheight := height.toNat_lt
      have hsize : sv1ExtranoncePlaceholder.length = 8 := rfl
      rw [hsize] at hnat
      refine UInt64.toNat_inj.mp ?_
      change _ = 0xefbeadde0cb0cefa
      omega
  · rintro rfl
    exact ⟨[], [0], by decide +kernel⟩

/-- The opcode of a push is at most `OP_PUSHDATA4`. -/
theorem pushHeader_eq_cons (len : Nat) : ∃ op, Script.pushHeader len =
    op :: (Script.pushHeader len).tail ∧ op.toNat ≤ 0x4e := by
  rw [Script.pushHeader]
  split
  · next h =>
    refine ⟨_, rfl, ?_⟩
    rw [UInt8.toNat_ofNat']
    omega
  split
  · exact ⟨0x4c, rfl, by decide⟩
  split
  · exact ⟨0x4d, rfl, by decide⟩
  · exact ⟨0x4e, rfl, by decide⟩

/-- A seam between a byte with its top bit clear and an opcode cuts no placeholder. -/
theorem placeholder_not_cut {p q : Bytes} {top op : UInt8} (htop : top.toNat < 128)
    (hop : op.toNat ≤ 0x4e) : sv1ExtranoncePlaceholder ≠ p ++ top :: op :: q := by
  have hpairs : ∀ i < 7, 128 ≤ (sv1ExtranoncePlaceholder.getD i 0).toNat ∨
      0x4e < (sv1ExtranoncePlaceholder.getD (i + 1) 0).toNat := by decide
  intro h
  have hlen := congrArg List.length h
  simp only [List.length_append, List.length_cons,
    show sv1ExtranoncePlaceholder.length = 8 from rfl] at hlen
  have hpair := hpairs p.length (by omega)
  simp only [h, List.getD_eq_getElem?_getD, List.getElem?_append_right, Nat.le_refl,
    Nat.le_add_right, Nat.sub_self, Nat.add_sub_cancel_left, List.getElem?_cons_zero,
    List.getElem?_cons_succ, Option.getD_some] at hpair
  omega

/-- Nothing in front of the script is the placeholder. -/
theorem not_infix_coinbaseFront {len : Nat} (hlen : len < 2 ^ 63) :
    ¬ sv1ExtranoncePlaceholder <:+: coinbaseHead ++ PrefixCodec.encodeVarInt len := by
  rintro ⟨before, after, h⟩
  have hlt := @lt_of_placeholder len 0 [] (after ++ [0]) before.length hlen (by decide) (by
    rw [← h]
    simp)
  have hsize := congrArg List.length h
  simp only [List.length_append, length_coinbaseHead,
    show sv1ExtranoncePlaceholder.length = 8 from rfl] at hsize
  omega

/-- Where there is none in front of the script, an occurrence in front of the appended placeholder
is the height, or it lies in the length bytes of the flags' push and the flags. -/
theorem infix_scriptFront_iff {front : Bytes} (hfront : ¬ sv1ExtranoncePlaceholder <:+: front)
    (height : UInt64) (flags : Bytes) :
    sv1ExtranoncePlaceholder <:+: front ++ scriptFront height flags ↔
      height = 0xefbeadde0cb0cefa ∨
        sv1ExtranoncePlaceholder <:+: (Script.pushHeader (flags.length + 8)).tail ++ flags := by
  have hne : sv1ExtranoncePlaceholder ≠ [] := by decide
  have hlen := length_encodeScriptNum_le height
  obtain ⟨op, hheader, hop⟩ := pushHeader_eq_cons (flags.length + 8)
  have hlow : UInt8.ofNat (encodeScriptNum height).length ∉ sv1ExtranoncePlaceholder := by
    refine not_mem_placeholder_of_le (UInt8.le_iff_toNat_le.mpr ?_)
    rw [UInt8.toNat_ofNat_of_lt' (Nat.lt_of_le_of_lt hlen (by decide))]
    exact hlen
  have hsplit : scriptFront height flags = UInt8.ofNat (encodeScriptNum height).length ::
      (encodeScriptNum height ++ op :: ((Script.pushHeader (flags.length + 8)).tail ++ flags)) := by
    rw [scriptFront, Script.push_of_le (by omega), hheader]
    simp
  rw [hsplit, infix_append_cons_iff hne hlow, or_iff_right hfront,
    ← placeholder_infix_encodeScriptNum_iff]
  constructor
  · intro h
    rcases infix_append_cases h with h | h | ⟨p, q, hp, hq, hpat, hnum, hrest⟩
    · exact .inl h
    · rcases List.infix_cons_iff.mp h with h | h
      · obtain ⟨t, ht⟩ := h
        obtain rfl : 0xfa = op := (List.cons.inj ht).1
        exact absurd hop (by decide)
      · exact .inr h
    · obtain ⟨p, top, rfl⟩ := List.eq_nil_or_concat' p |>.resolve_left hp
      obtain ⟨init, hinit⟩ := hnum
      have htop := @lt_of_getLast?_encodeScriptNum height top (by simp [← hinit])
      cases q with
      | nil => exact absurd rfl hq
      | cons first q =>
        obtain ⟨rfl, -⟩ := List.cons_prefix_cons.mp hrest
        exact absurd (by simpa using hpat) (placeholder_not_cut htop hop)
  · rintro (h | h)
    · exact List.infix_append_of_infix_left h
    · exact List.infix_append_of_infix_right (List.infix_cons h)

/-! ## The script of a completed coinbase -/

/-- Whatever eight bytes a job's coinbase is completed with, its script pushes the height and then,
in one push, the flags with the eight bytes behind them. -/
def KeepsScript (bitcoin : BitcoinCrate) (template : BlockTemplate) (flags : Bytes) (job : Job) :
    Prop :=
  ∀ x : Bytes, x.length = 8 → ∃ tx input,
    bitcoin.deserialize (job.coinbasePart1 ++ x ++ job.coinbasePart2) = .ok tx ∧
      tx.input = [input] ∧
      Script.pushes input.scriptSig = some [Script.encodeNum template.height.toNat, flags ++ x]

/-- The first occurrence is the appended one when there is none in front of it. -/
theorem eq_length_scriptFront_iff {height : UInt64} {flags : Option Bytes} {tail : Bytes} {m : Nat}
    (hlen : (placeholderScript height flags).length < 2 ^ 63)
    (hfind : let script := placeholderScript height flags
      let front := coinbaseHead ++ PrefixCodec.encodeVarInt script.length
      findWindow sv1ExtranoncePlaceholder (front ++ script ++ tail) = some (front.length + m)) :
    m = (scriptFront height (flags.getD [])).length ↔
      height ≠ 0xefbeadde0cb0cefa ∧ ¬ sv1ExtranoncePlaceholder <:+:
        (Script.pushHeader ((flags.getD []).length + 8)).tail ++ flags.getD [] := by
  have hscript := placeholderScript_eq_front height flags
  rw [← not_or, ← infix_scriptFront_iff (not_infix_coinbaseFront hlen),
    ← findWindow_append_iff (t := tail) (by decide) (by decide)]
  simp only [List.append_assoc, hscript, List.length_append] at hfind ⊢
  rw [hfind, Option.some.injEq]
  omega

/-- Cut in front of its end, a script still ends with the placeholder, so what it pushes last does
not end with a zero. -/
theorem pushes_ne_of_cut_early {height : UInt64} {flags : Option Bytes} {m : Nat}
    (hm : m + 8 ≤ (placeholderScript height flags).length)
    (hne : m ≠ (scriptFront height (flags.getD [])).length) (before number data : Bytes) :
    Script.pushes (before ++ (placeholderScript height flags).drop (m + 8)) ≠
      some [number, data ++ List.replicate 8 0] := by
  intro hpushes
  have hlt : ¬ (placeholderScript height flags).length ≤ m + 8 := by
    rw [placeholderScript_eq_front, List.length_append,
      show sv1ExtranoncePlaceholder.length = 8 from rfl] at hm ⊢
    omega
  have hend : ((placeholderScript height flags).drop (m + 8)).getLast? = some 0xef := by
    rw [List.getLast?_drop, if_neg hlt, placeholderScript_eq_front, List.getLast?_append]
    rfl
  obtain ⟨t, ht⟩ := @Script.suffix_of_pushes _ _ [number] hpushes
  have hlast := congrArg List.getLast? ht
  simp only [List.getLast?_append, hend, Option.some_or] at hlast
  exact absurd (Option.some.inj hlast) (by decide)

/-- Cut at its end, a script pushes the height and the flags with the eight bytes. -/
theorem pushes_of_cut_last {height : UInt64} {flags : Option Bytes} {x : Bytes}
    (hfit : (flags.getD []).length + 8 < 2 ^ 32) (hx : x.length = 8) :
    Script.pushes
        ((placeholderScript height flags).take (scriptFront height (flags.getD [])).length ++ x ++
          (placeholderScript height flags).drop
            ((scriptFront height (flags.getD [])).length + 8)) =
      some [Script.encodeNum height.toNat, flags.getD [] ++ x] := by
  have hfilled : (placeholderScript height flags).take
        (scriptFront height (flags.getD [])).length ++ x ++
      (placeholderScript height flags).drop ((scriptFront height (flags.getD [])).length + 8) =
      [encodeScriptNum height, flags.getD [] ++ x].flatMap Script.push := by
    rw [placeholderScript_eq_front, List.take_left, List.drop_length_add_append,
      ← show sv1ExtranoncePlaceholder.length = 8 from rfl, List.drop_length, List.append_nil,
      scriptFront_append _ _ hx]
    simp
  have hitems : ∀ data ∈ [encodeScriptNum height, flags.getD [] ++ x], data.length < 2 ^ 32 := by
    simp only [List.forall_mem_cons, List.length_append, hx]
    exact ⟨Nat.lt_of_le_of_lt (length_encodeScriptNum_le height) (by decide), hfit, by simp⟩
  rw [hfilled, Script.pushes_flatMap hitems, encodeScriptNum_eq]

/-- The script keeps the height and the flags exactly when the placeholder occurs neither as the
height nor in the flags and the length bytes in front of them, and the flags fit in a push. -/
theorem keepsScript_iff {bitcoin : BitcoinCrate} (hbitcoin : bitcoin.FollowsFormat)
    {template : BlockTemplate} {payoutScriptPubkey : Slice} {job : Job}
    (hjob : templateToJob bitcoin template payoutScriptPubkey = .ok job) {flags : Option Bytes}
    (hflags : decodeCoinbaseAuxFlags template = .ok flags) :
    KeepsScript bitcoin template (flags.getD []) job ↔
      template.height ≠ 0xefbeadde0cb0cefa ∧
      ¬ sv1ExtranoncePlaceholder <:+:
        (Script.pushHeader ((flags.getD []).length + 8)).tail ++ flags.getD [] ∧
      (flags.getD []).length + 8 < 2 ^ 32 := by
  obtain ⟨flags', commitment, m, hflags', hlen, hfind, hm, hcut⟩ :=
    exists_placeholderCut hbitcoin hjob
  cases hflags.symm.trans hflags'
  rw [← and_assoc,
    ← eq_length_scriptFront_iff (length_placeholderScript_lt hlen template.height) hfind]
  constructor
  · intro hkeeps
    -- eight zeros tell an early cut from the last one
    have hx : (List.replicate 8 (0 : UInt8)).length = 8 := rfl
    obtain ⟨tx, input, hdeserialize, hinput, hpushes⟩ := hkeeps _ hx
    cases (hcut.decode hx hbitcoin).2.symm.trans hdeserialize
    cases hinput
    have hfit := Script.length_lt_of_mem_pushes hpushes _
      (List.mem_cons_of_mem _ List.mem_cons_self)
    rw [List.length_append] at hfit
    refine ⟨?_, hfit⟩
    by_contra hne
    exact pushes_ne_of_cut_early hm hne _ _ _ hpushes
  · rintro ⟨rfl, hfit⟩ x hx
    exact ⟨_, _, (hcut.decode hx hbitcoin).2, rfl, pushes_of_cut_last hfit hx⟩

/-- The template of the fixture, with auxiliary flags. -/
def flaggedTemplate (flags : Str) : BlockTemplate :=
  { fixtureTemplate [] with coinbaseaux := some ⟨some flags⟩ }

/-- Flags that hold a part of the placeholder only. -/
theorem keepsScript_iff_flagged :
    ∃ job, templateToJob .ofFormat (flaggedTemplate ⟨"faceb00cdeadbe", by decide⟩)
        fixturePayoutScript = .ok job ∧
      KeepsScript .ofFormat (flaggedTemplate ⟨"faceb00cdeadbe", by decide⟩)
        [0xfa, 0xce, 0xb0, 0x0c, 0xde, 0xad, 0xbe] job := by
  have hok : (templateToJob .ofFormat (flaggedTemplate ⟨"faceb00cdeadbe", by decide⟩)
      fixturePayoutScript).isOk = true := by
    decide +kernel
  obtain ⟨job, hjob⟩ := Except.exists_of_isOk hok
  have hflags : decodeCoinbaseAuxFlags (flaggedTemplate ⟨"faceb00cdeadbe", by decide⟩) =
      .ok (some [0xfa, 0xce, 0xb0, 0x0c, 0xde, 0xad, 0xbe]) := by
    decide +kernel
  refine ⟨job, hjob, ?_⟩
  exact (keepsScript_iff BitcoinCrate.ofFormat_followsFormat hjob hflags).mpr (by decide +kernel)

/-- Flags that are the placeholder are cut out: the extranonces stand in their place. -/
theorem not_keepsScript_placeholder :
    ∃ job, templateToJob .ofFormat (flaggedTemplate ⟨"faceb00cdeadbeef", by decide⟩)
        fixturePayoutScript = .ok job ∧
      decodeCoinbaseAuxFlags (flaggedTemplate ⟨"faceb00cdeadbeef", by decide⟩) =
        .ok (some sv1ExtranoncePlaceholder) ∧
      ¬ KeepsScript .ofFormat (flaggedTemplate ⟨"faceb00cdeadbeef", by decide⟩)
        sv1ExtranoncePlaceholder job := by
  have heval : ((templateToJob .ofFormat (flaggedTemplate ⟨"faceb00cdeadbeef", by decide⟩)
      fixturePayoutScript).toOption.map fun job =>
        (BitcoinCrate.ofFormat.deserialize
          (job.coinbasePart1 ++ List.replicate 8 0 ++ job.coinbasePart2)).toOption.map fun tx =>
            tx.input.map fun input => Script.pushes input.scriptSig) =
      some (some [some [[0x64], List.replicate 8 0 ++ sv1ExtranoncePlaceholder]]) := by
    decide +kernel
  obtain ⟨job, hjob, heval⟩ := Option.map_eq_some_iff.mp heval
  obtain ⟨tx', htx', heval⟩ := Option.map_eq_some_iff.mp heval
  refine ⟨job, Except.toOption_eq_some.mp hjob, by decide +kernel, fun hkeeps => ?_⟩
  obtain ⟨tx, input, htx, hinput, hpushes⟩ := hkeeps (List.replicate 8 0) rfl
  cases htx.symm.trans (Except.toOption_eq_some.mp htx')
  rw [hinput, List.map_singleton, hpushes] at heval
  exact absurd heval (by decide +kernel)

end AzcoinPool
