import AzcoinPool.Lib.Endian

/-!
# Prefix codecs

A `PrefixCodec` is a writer and a reader of byte strings that are exact inverses: the reader
succeeds on a string just when the string starts with what the writer writes for a valid value, and
it returns that value and what follows (`exact`). The law is a field, so a format built from the
combinators here is unambiguous by construction. The combinators are those a binary wire format
needs: fixed-width little-endian integers, Bitcoin's variable-length integer, raw bytes of a given
length, sequencing in which the second format may depend on the first value, counted repetition,
and transport along a bijection of the valid values.
-/

open Endian

/-- A wire format whose reader and writer are exact inverses on the valid values. -/
structure PrefixCodec (α : Type*) where
  /-- The values the format can carry. -/
  Valid : α → Prop
  encode : α → List UInt8
  /-- Reads one value off the front and returns it with the bytes that follow. -/
  decode : List UInt8 → Option (α × List UInt8)
  exact : ∀ bs a rest, decode bs = some (a, rest) ↔ Valid a ∧ bs = encode a ++ rest

namespace PrefixCodec

variable {α β γ : Type*}

/-- Reading what was written, with anything behind it. -/
theorem decode_encode (c : PrefixCodec α) {a : α} (ha : c.Valid a) (rest : List UInt8) :
    c.decode (c.encode a ++ rest) = some (a, rest) :=
  (c.exact _ _ _).2 ⟨ha, rfl⟩

/-- A value that was read is valid, and its encoding is what was consumed. -/
theorem of_decode (c : PrefixCodec α) {bs : List UInt8} {a : α} {rest : List UInt8}
    (h : c.decode bs = some (a, rest)) : c.Valid a ∧ bs = c.encode a ++ rest :=
  (c.exact _ _ _).1 h

/-- The whole of a string reads as a value just when it is the value's encoding. -/
theorem decode_eq_some_nil (c : PrefixCodec α) {bs : List UInt8} {a : α} :
    c.decode bs = some (a, []) ↔ c.Valid a ∧ bs = c.encode a := by
  rw [c.exact, List.append_nil]

/-! ## Transport along a bijection -/

/-- The format of `c` for values of `β`, where `f` and `g` are inverse on the valid ones. -/
def map (c : PrefixCodec α) (f : α → β) (g : β → α) (V : β → Prop)
    (hf : ∀ a, c.Valid a → V (f a) ∧ g (f a) = a) (hg : ∀ b, V b → c.Valid (g b) ∧ f (g b) = b) :
    PrefixCodec β where
  Valid := V
  encode b := c.encode (g b)
  decode bs := (c.decode bs).map fun p => (f p.1, p.2)
  exact bs b rest := by
    simp only [Option.map_eq_some_iff, Prod.mk.injEq, Prod.exists]
    constructor
    · rintro ⟨a, r, h, rfl, rfl⟩
      obtain ⟨ha, rfl⟩ := c.of_decode h
      exact ⟨(hf a ha).1, by rw [(hf a ha).2]⟩
    · rintro ⟨hb, rfl⟩
      exact ⟨g b, rest, c.decode_encode (hg b hb).1 rest, (hg b hb).2, rfl⟩

/-! ## Restriction and choice -/

/-- The format of `c` for the values that pass a test; the reader refuses the others. -/
def restrict (c : PrefixCodec α) (p : α → Bool) : PrefixCodec α where
  Valid a := c.Valid a ∧ p a = true
  encode := c.encode
  decode bs := (c.decode bs).filter fun q => p q.1
  exact bs a rest := by
    rw [Option.filter_eq_some_iff, c.exact]
    exact and_right_comm

/-- Two formats for two kinds of value, told apart by their encodings. -/
def orElse (c d : PrefixCodec α) (isC : α → Bool) (hc : ∀ a, c.Valid a → isC a = true)
    (hd : ∀ a, d.Valid a → isC a = false)
    (hdisj : ∀ a b r s, c.Valid a → d.Valid b → c.encode a ++ r ≠ d.encode b ++ s) :
    PrefixCodec α where
  Valid a := c.Valid a ∨ d.Valid a
  encode a := if isC a then c.encode a else d.encode a
  decode bs := (c.decode bs).or (d.decode bs)
  exact bs a rest := by
    rw [Option.or_eq_some_iff]
    constructor
    · rintro (h | ⟨-, h⟩)
      · obtain ⟨ha, rfl⟩ := c.of_decode h
        exact ⟨.inl ha, by rw [if_pos (hc a ha)]⟩
      · obtain ⟨ha, rfl⟩ := d.of_decode h
        exact ⟨.inr ha, by rw [hd a ha, if_neg Bool.false_ne_true]⟩
    · rintro ⟨ha | ha, rfl⟩
      · exact .inl (by rw [if_pos (hc a ha), c.decode_encode ha])
      · rw [hd a ha, if_neg Bool.false_ne_true]
        refine .inr ⟨?_, d.decode_encode ha rest⟩
        cases h : c.decode (d.encode a ++ rest) with
        | none => rfl
        | some q =>
          obtain ⟨hq, heq⟩ := c.of_decode h
          exact absurd heq.symm (hdisj _ _ _ _ hq ha)

/-! ## Sequencing -/

/-- One format after another; the second may depend on the first value. -/
def seq (c : PrefixCodec α) (k : α → PrefixCodec β) : PrefixCodec (α × β) where
  Valid p := c.Valid p.1 ∧ (k p.1).Valid p.2
  encode p := c.encode p.1 ++ (k p.1).encode p.2
  decode bs :=
    match c.decode bs with
    | none => none
    | some (a, bs') =>
      match (k a).decode bs' with
      | none => none
      | some (b, rest) => some ((a, b), rest)
  exact bs p rest := by
    obtain ⟨a, b⟩ := p
    constructor
    · intro h
      split at h
      · cases h
      · next a' bs' h₁ =>
        split at h
        · cases h
        · next b' rest' h₂ =>
          cases h
          obtain ⟨ha, rfl⟩ := c.of_decode h₁
          obtain ⟨hb, rfl⟩ := (k a).of_decode h₂
          exact ⟨⟨ha, hb⟩, by rw [List.append_assoc]⟩
    · rintro ⟨⟨ha, hb⟩, rfl⟩
      simp only [List.append_assoc, c.decode_encode ha, (k a).decode_encode hb]

/-- Two independent formats, one after the other. -/
def pair (c : PrefixCodec α) (d : PrefixCodec β) : PrefixCodec (α × β) := c.seq fun _ => d

/-- A fixed byte string. -/
def tag (t : List UInt8) : PrefixCodec Unit where
  Valid _ := True
  encode _ := t
  decode bs := if t.isPrefixOf bs then some ((), bs.drop t.length) else none
  exact bs _ rest := by
    simp only [Option.ite_none_right_eq_some, List.isPrefixOf_iff_prefix, Option.some.injEq,
      Prod.mk.injEq, true_and]
    constructor
    · rintro ⟨⟨s, rfl⟩, rfl⟩; simp
    · rintro rfl; simp

/-! ## Repetition -/

/-- The reader of exactly `n` values. -/
def decodeN (c : PrefixCodec α) : Nat → List UInt8 → Option (List α × List UInt8)
  | 0, bs => some ([], bs)
  | n + 1, bs =>
    match c.decode bs with
    | none => none
    | some (a, bs') =>
      match decodeN c n bs' with
      | none => none
      | some (as, rest) => some (a :: as, rest)

theorem decodeN_eq_some (c : PrefixCodec α) (n : Nat) (bs : List UInt8) (as : List α)
    (rest : List UInt8) :
    c.decodeN n bs = some (as, rest) ↔
      (as.length = n ∧ ∀ a ∈ as, c.Valid a) ∧ bs = as.flatMap c.encode ++ rest := by
  induction n generalizing bs as with
  | zero =>
    simp only [decodeN, Option.some.injEq, Prod.mk.injEq, List.length_eq_zero_iff]
    constructor
    · rintro ⟨rfl, rfl⟩; simp
    · rintro ⟨⟨rfl, -⟩, h⟩; exact ⟨rfl, by simpa using h⟩
  | succ n ih =>
    constructor
    · intro h
      rw [decodeN] at h
      split at h
      · cases h
      · next a bs' h₁ =>
        split at h
        · cases h
        · next as' rest' h₂ =>
          cases h
          obtain ⟨ha, rfl⟩ := c.of_decode h₁
          obtain ⟨⟨hlen, has⟩, rfl⟩ := (ih _ _).1 h₂
          exact ⟨⟨by simp [hlen], by simpa using ⟨ha, has⟩⟩, by simp⟩
    · rintro ⟨⟨hlen, hval⟩, rfl⟩
      cases as with
      | nil => simp at hlen
      | cons a as =>
        have ha := hval a List.mem_cons_self
        have has := (ih (as.flatMap c.encode ++ rest) as).2
          ⟨⟨by simpa using hlen, fun x hx => hval x (List.mem_cons_of_mem _ hx)⟩, rfl⟩
        rw [decodeN, List.flatMap_cons, List.append_assoc, c.decode_encode ha]
        simp only [has]

/-- Exactly `n` values of one format. -/
def replicate (c : PrefixCodec α) (n : Nat) : PrefixCodec (List α) where
  Valid as := as.length = n ∧ ∀ a ∈ as, c.Valid a
  encode as := as.flatMap c.encode
  decode := c.decodeN n
  exact := c.decodeN_eq_some n

/-! ## Raw bytes and integers -/

/-- Exactly `n` raw bytes. -/
def raw (n : Nat) : PrefixCodec (List UInt8) where
  Valid as := as.length = n
  encode as := as
  decode bs := if n ≤ bs.length then some (bs.take n, bs.drop n) else none
  exact bs as rest := by
    simp only [Option.ite_none_right_eq_some, Option.some.injEq, Prod.mk.injEq]
    constructor
    · rintro ⟨hle, rfl, rfl⟩
      exact ⟨by simp [hle], (List.take_append_drop n bs).symm⟩
    · rintro ⟨rfl, rfl⟩
      simp

/-- A number below `256 ^ k` as `k` little-endian bytes. -/
def uint (k : Nat) : PrefixCodec Nat :=
  (raw k).map leNat (leBytes k) (· < 256 ^ k)
    (fun as has => by
      have hlen : as.length = k := has
      subst hlen
      exact ⟨leNat_lt as, leBytes_leNat as⟩)
    (fun _ hn => ⟨length_leBytes _ _, leNat_leBytes hn⟩)

/-- `u8` on the wire. -/
def u8 : PrefixCodec UInt8 :=
  (uint 1).map UInt8.ofNat UInt8.toNat (fun _ => True)
    (fun _ hn => ⟨trivial, UInt8.toNat_ofNat_of_lt' hn⟩)
    (fun b _ => ⟨b.toNat_lt, UInt8.ofNat_toNat⟩)

/-- `u32`, little-endian. -/
def u32 : PrefixCodec UInt32 :=
  (uint 4).map UInt32.ofNat UInt32.toNat (fun _ => True)
    (fun _ hn => ⟨trivial, UInt32.toNat_ofNat_of_lt' hn⟩)
    (fun n _ => ⟨n.toNat_lt, UInt32.ofNat_toNat⟩)

/-- `u64`, little-endian. -/
def u64 : PrefixCodec UInt64 :=
  (uint 8).map UInt64.ofNat UInt64.toNat (fun _ => True)
    (fun _ hn => ⟨trivial, UInt64.toNat_ofNat_of_lt' hn⟩)
    (fun n _ => ⟨n.toNat_lt, UInt64.ofNat_toNat⟩)

/-! ## The variable-length integer -/

/-- The variable-length integer of the Bitcoin wire format: one byte below `0xfd`, else a marker
byte and two, four or eight little-endian bytes, whichever is the least that fits. -/
def encodeVarInt (n : Nat) : List UInt8 :=
  if n < 0xfd then [UInt8.ofNat n]
  else if n ≤ 0xffff then 0xfd :: leBytes 2 n
  else if n ≤ 0xffffffff then 0xfe :: leBytes 4 n
  else 0xff :: leBytes 8 n

/-- Only the encoding of zero starts with a zero byte. -/
theorem encodeVarInt_eq_cons {n : Nat} (hn : 0 < n) :
    ∃ b bs, encodeVarInt n = b :: bs ∧ b ≠ 0 := by
  rw [encodeVarInt]
  split
  · next h =>
    have hb : (UInt8.ofNat n).toNat = n :=
      UInt8.toNat_ofNat_of_lt' (Nat.lt_trans h (by decide))
    refine ⟨_, [], rfl, fun h0 => ?_⟩
    rw [h0] at hb
    exact absurd hb (by simp; omega)
  · split
    · exact ⟨_, _, rfl, by decide⟩
    · split <;> exact ⟨_, _, rfl, by decide⟩

/-- `k` little-endian bytes of a number that is at least `least`. -/
def decodeAtLeast (k least : Nat) (bs : List UInt8) : Option (Nat × List UInt8) :=
  ((uint k).decode bs).filter fun p => least ≤ p.1

theorem decodeAtLeast_eq_some {k least : Nat} {bs : List UInt8} {n : Nat} {rest : List UInt8} :
    decodeAtLeast k least bs = some (n, rest) ↔
      least ≤ n ∧ n < 256 ^ k ∧ bs = leBytes k n ++ rest := by
  rw [decodeAtLeast, Option.filter_eq_some_iff, (uint k).exact, decide_eq_true_iff]
  exact and_comm

/-- Reads a variable-length integer; a longer encoding than the least one is refused. -/
def decodeVarInt : List UInt8 → Option (Nat × List UInt8)
  | [] => none
  | b :: bs =>
    if b = 0xff then decodeAtLeast 8 0x100000000 bs
    else if b = 0xfe then decodeAtLeast 4 0x10000 bs
    else if b = 0xfd then decodeAtLeast 2 0xfd bs
    else some (b.toNat, bs)

theorem encodeVarInt_of_decode {bs : List UInt8} {n : Nat} {rest : List UInt8}
    (h : decodeVarInt bs = some (n, rest)) : n < 2 ^ 64 ∧ bs = encodeVarInt n ++ rest := by
  cases bs with
  | nil => cases h
  | cons b bs =>
    rw [decodeVarInt] at h
    split at h
    · next hb =>
      obtain ⟨hle, hlt, rfl⟩ := decodeAtLeast_eq_some.1 h
      refine ⟨by omega, ?_⟩
      rw [encodeVarInt, if_neg (by omega), if_neg (by omega), if_neg (by omega), hb,
        List.cons_append]
    · next hff =>
      split at h
      · next hb =>
        obtain ⟨hle, hlt, rfl⟩ := decodeAtLeast_eq_some.1 h
        refine ⟨by omega, ?_⟩
        rw [encodeVarInt, if_neg (by omega), if_neg (by omega), if_pos (by omega), hb,
          List.cons_append]
      · next hfe =>
        split at h
        · next hb =>
          obtain ⟨hle, hlt, rfl⟩ := decodeAtLeast_eq_some.1 h
          refine ⟨by omega, ?_⟩
          rw [encodeVarInt, if_neg (by omega), if_pos (by omega), hb, List.cons_append]
        · next hfd =>
          cases h
          have hb := b.toNat_lt
          have h1 : b.toNat ≠ 0xff := fun e => hff (UInt8.toNat_inj.mp e)
          have h2 : b.toNat ≠ 0xfe := fun e => hfe (UInt8.toNat_inj.mp e)
          have h3 : b.toNat ≠ 0xfd := fun e => hfd (UInt8.toNat_inj.mp e)
          refine ⟨by omega, ?_⟩
          rw [encodeVarInt, if_pos (by omega), UInt8.ofNat_toNat, List.singleton_append]

theorem decodeVarInt_encode {n : Nat} (hn : n < 2 ^ 64) (rest : List UInt8) :
    decodeVarInt (encodeVarInt n ++ rest) = some (n, rest) := by
  rw [encodeVarInt]
  split
  · next h =>
    have hb : (UInt8.ofNat n).toNat = n :=
      UInt8.toNat_ofNat_of_lt' (Nat.lt_trans h (by decide))
    have hne : ∀ m : UInt8, 0xfd ≤ m.toNat → UInt8.ofNat n ≠ m := by
      rintro m hm rfl
      omega
    rw [List.singleton_append, decodeVarInt, if_neg (hne _ (by decide)), if_neg (hne _ (by decide)),
      if_neg (hne _ (by decide)), hb]
  · split
    · rw [List.cons_append, decodeVarInt, if_neg (by decide), if_neg (by decide),
        if_pos rfl]
      exact decodeAtLeast_eq_some.2 ⟨by omega, by omega, rfl⟩
    · split
      · rw [List.cons_append, decodeVarInt, if_neg (by decide), if_pos rfl]
        exact decodeAtLeast_eq_some.2 ⟨by omega, by omega, rfl⟩
      · rw [List.cons_append, decodeVarInt, if_pos rfl]
        exact decodeAtLeast_eq_some.2 ⟨by omega, by omega, rfl⟩

/-- The variable-length integer as a format for numbers below `2 ^ 64`. -/
def varInt : PrefixCodec Nat where
  Valid n := n < 2 ^ 64
  encode := encodeVarInt
  decode := decodeVarInt
  exact _ _ rest :=
    ⟨encodeVarInt_of_decode, by rintro ⟨hn, rfl⟩; exact decodeVarInt_encode hn rest⟩

/-! ## Counted lists -/

/-- A list behind its length as a variable-length integer. -/
def vec (c : PrefixCodec α) : PrefixCodec (List α) :=
  (varInt.seq c.replicate).map Prod.snd (fun as => (as.length, as))
    (fun as => as.length < 2 ^ 64 ∧ ∀ a ∈ as, c.Valid a)
    (by
      rintro ⟨n, as⟩ ⟨hn, hlen, has⟩
      have hlen : as.length = n := hlen
      subst hlen
      exact ⟨⟨hn, has⟩, rfl⟩)
    (fun _ h => ⟨⟨h.1, rfl, h.2⟩, rfl⟩)

/-- A byte string behind its length. -/
def bytes : PrefixCodec (List UInt8) :=
  (varInt.seq raw).map Prod.snd (fun as => (as.length, as)) (·.length < 2 ^ 64)
    (by
      rintro ⟨n, as⟩ ⟨hn, hlen⟩
      have hlen : as.length = n := hlen
      subst hlen
      exact ⟨hn, rfl⟩)
    (fun _ h => ⟨⟨h, rfl⟩, rfl⟩)

@[simp] theorem vec_encode (c : PrefixCodec α) (as : List α) :
    c.vec.encode as = encodeVarInt as.length ++ as.flatMap c.encode := rfl

@[simp] theorem bytes_encode (as : List UInt8) :
    bytes.encode as = encodeVarInt as.length ++ as := rfl

end PrefixCodec
