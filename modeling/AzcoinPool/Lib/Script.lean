import AzcoinPool.Lib.Endian
import Mathlib.Data.Nat.Size

/-!
# Script numbers and pushes

The two encodings a Bitcoin script is built from: numbers as sign-and-magnitude byte strings, least
significant byte first, and pushes of byte strings behind an opcode that gives their length. A
minimal encoding of a natural number is the shortest one that leaves the sign bit clear
(`eq_encodeNum`), and a script written as pushes is read back push by push (`pushes_flatMap`).
-/

namespace Script

open Endian

/-! ## Numbers -/

/-- The number a byte string stands for; the top bit of the last byte is its sign. -/
def decodeNum (bs : List UInt8) : Int :=
  match bs.getLast? with
  | none => 0
  | some top =>
    if top.toNat < 128 then (leNat bs : Int)
    else -((leNat bs - 128 * 256 ^ (bs.length - 1) : Nat) : Int)

/-- No byte is spare: the last one is zero, but for its sign, only where the byte before it needs
the room of the sign bit. -/
def MinimalNum (bs : List UInt8) : Prop :=
  match bs.reverse with
  | [] => True
  | [top] => top.toNat % 128 ≠ 0
  | top :: next :: _ => top.toNat % 128 ≠ 0 ∨ 128 ≤ next.toNat

instance (bs : List UInt8) : Decidable (MinimalNum bs) := by
  unfold MinimalNum
  split <;> infer_instance

/-- The shortest encoding of a natural number that leaves the sign bit clear. -/
def encodeNum (n : Nat) : List UInt8 :=
  if n = 0 then [] else leBytes (n.size / 8 + 1) n

theorem decodeNum_concat (init : List UInt8) (top : UInt8) : decodeNum (init ++ [top]) =
    if top.toNat < 128 then ((leNat init + 256 ^ init.length * top.toNat : Nat) : Int)
    else -((leNat init + 256 ^ init.length * (top.toNat - 128) : Nat) : Int) := by
  have hval : leNat (init ++ [top]) = leNat init + 256 ^ init.length * top.toNat := by
    simp [leNat_append]
  simp only [decodeNum, List.getLast?_concat, hval, List.length_append, List.length_singleton,
    Nat.add_sub_cancel]
  split
  · rfl
  · next h =>
    have hsub : 256 ^ init.length * top.toNat =
        256 ^ init.length * (top.toNat - 128) + 128 * 256 ^ init.length := by
      rw [Nat.mul_comm 128, ← Nat.mul_add, Nat.sub_add_cancel (Nat.le_of_not_lt h)]
    rw [hsub, ← Nat.add_assoc, Nat.add_sub_cancel]

theorem minimalNum_concat_iff (init : List UInt8) (top : UInt8) : MinimalNum (init ++ [top]) ↔
    top.toNat % 128 ≠ 0 ∨ ∃ next ∈ init.getLast?, 128 ≤ next.toNat := by
  cases init using List.reverseRecOn with
  | nil => simp [MinimalNum]
  | append_singleton init next => simp [MinimalNum]

/-- A last byte bounds the value from below. -/
theorem le_leNat_of_getLast? {bs : List UInt8} {b : UInt8} (h : b ∈ bs.getLast?) :
    256 ^ (bs.length - 1) * b.toNat ≤ leNat bs := by
  obtain ⟨init, rfl⟩ := List.getLast?_eq_some_iff.mp h
  simp [leNat_append]

/-- The width of a non-zero number: with `k + 1` bytes the sign bit is clear, with `k` it is not. -/
theorem size_div_eight {n k : Nat} (hlt : n < 256 ^ k * 128)
    (hle : 0 < k → 256 ^ (k - 1) * 128 ≤ n) : n.size / 8 = k := by
  have hpow : ∀ j : Nat, 256 ^ j * 128 = 2 ^ (8 * j + 7) := by
    intro j
    rw [Nat.pow_add, Nat.pow_mul]
  have hupper : n.size ≤ 8 * k + 7 := Nat.size_le.mpr (hpow k ▸ hlt)
  cases k with
  | zero => omega
  | succ k =>
    have hlower : 8 * k + 7 < n.size := Nat.lt_size.mpr (hpow k ▸ hle (Nat.succ_pos k))
    omega

/-- A number below the room of the sign bit and not below the room of one byte less is written as
its bytes. -/
theorem encodeNum_of_bounds {bs : List UInt8} {k : Nat} (hlen : bs.length = k + 1)
    (hlt : leNat bs < 256 ^ k * 128) (hle : 0 < k → 256 ^ (k - 1) * 128 ≤ leNat bs)
    (hne : leNat bs ≠ 0) : encodeNum (leNat bs) = bs := by
  rw [encodeNum, if_neg hne, size_div_eight hlt hle, ← hlen, leBytes_leNat]

/-- A byte that takes the room of the sign bit is worth half a power of 256. -/
theorem le_leNat_of_room {init : List UInt8} {next : UInt8} (hmem : next ∈ init.getLast?)
    (hle : 128 ≤ next.toNat) : 256 ^ (init.length - 1) * 128 ≤ leNat init :=
  (Nat.mul_le_mul_left _ hle).trans (le_leNat_of_getLast? hmem)

/-- A natural number has its sign bit clear: a negative zero is not minimal. -/
theorem lt_of_minimalNum {init : List UInt8} {top : UInt8} {n : Nat}
    (hmin : MinimalNum (init ++ [top])) (hval : decodeNum (init ++ [top]) = n) :
    top.toNat < 128 := by
  rw [minimalNum_concat_iff] at hmin
  rw [decodeNum_concat] at hval
  split at hval
  · assumption
  · next htop =>
    have hzero : leNat init + 256 ^ init.length * (top.toNat - 128) = 0 := by omega
    obtain ⟨hinit, hhigh⟩ := Nat.add_eq_zero_iff.mp hzero
    have hpos : 0 < 256 ^ init.length := Nat.pow_pos (by decide)
    have h128 : top.toNat = 128 := by
      rcases Nat.mul_eq_zero.mp hhigh with h | h <;> omega
    rcases hmin with h | ⟨next, hmem, hle⟩
    · omega
    · have hhalf : 0 < 256 ^ (init.length - 1) := Nat.pow_pos (by decide)
      have := le_leNat_of_room hmem hle
      omega

/-- The minimal encodings of natural numbers are the shortest ones. -/
theorem eq_encodeNum {bs : List UInt8} {n : Nat} (hmin : MinimalNum bs)
    (hval : decodeNum bs = n) : bs = encodeNum n := by
  cases bs using List.reverseRecOn with
  | nil =>
    obtain rfl : n = 0 := by simpa [decodeNum] using hval.symm
    rfl
  | append_singleton init top =>
    have htop := lt_of_minimalNum hmin hval
    rw [minimalNum_concat_iff] at hmin
    rw [decodeNum_concat, if_pos htop] at hval
    have hn : leNat init + 256 ^ init.length * top.toNat = n := Int.ofNat.inj hval
    have hbytes : leNat (init ++ [top]) = n := by simpa [leNat_append] using hn
    have hlt : n < 256 ^ init.length * 128 := by
      have hinit := leNat_lt init
      calc n < 256 ^ init.length * (top.toNat + 1) := by rw [Nat.mul_succ]; omega
        _ ≤ 256 ^ init.length * 128 := Nat.mul_le_mul_left _ htop
    -- the last byte is not zero, or it makes room for the byte in front of it
    have hlow : 256 ^ init.length ≤ n ∨ 256 ^ (init.length - 1) * 128 ≤ n := by
      rcases hmin with h | ⟨next, hmem, hle⟩
      · have htop0 : 1 ≤ top.toNat := by omega
        have := Nat.mul_le_mul_left (256 ^ init.length) htop0
        exact .inl (by omega)
      · exact .inr ((le_leNat_of_room hmem hle).trans (by omega))
    have hpos : 0 < 256 ^ init.length := Nat.pow_pos (by decide)
    have hhalf : 0 < 256 ^ (init.length - 1) := Nat.pow_pos (by decide)
    rw [← hbytes] at hlt hlow ⊢
    refine (encodeNum_of_bounds (by simp) hlt (fun hlen => ?_) (by omega)).symm
    rcases hlow with h | h
    · have hpow : 256 ^ init.length = 256 ^ (init.length - 1) * 256 := by
        rw [← Nat.pow_succ, Nat.succ_eq_add_one, Nat.sub_add_cancel hlen]
      omega
    · exact h

/-! ## Pushes -/

/-- The opcode of a push, with the length behind it where the opcode does not give it. -/
def pushHeader (len : Nat) : List UInt8 :=
  if len ≤ 0x4b then [UInt8.ofNat len]
  else if len ≤ 0xff then [0x4c, UInt8.ofNat len]
  else if len ≤ 0xffff then 0x4d :: leBytes 2 len
  else 0x4e :: leBytes 4 len

/-- A push of a byte string. -/
def push (data : List UInt8) : List UInt8 := pushHeader data.length ++ data

theorem push_of_le {data : List UInt8} (h : data.length ≤ 0x4b) :
    push data = UInt8.ofNat data.length :: data := by
  rw [push, pushHeader, if_pos h]
  rfl

/-- The push of a number: an opcode of its own up to 16, the push of its encoding from there on. -/
def pushNum (n : Nat) : List UInt8 :=
  if n = 0 then [0x00] else if n ≤ 16 then [UInt8.ofNat (0x50 + n)] else push (encodeNum n)

/-- The first `len` bytes, and the rest. -/
def readBytes (len : Nat) (bs : List UInt8) : Option (List UInt8 × List UInt8) :=
  if len ≤ bs.length then some (bs.take len, bs.drop len) else none

/-- The bytes whose number the first `width` bytes give, and the rest. -/
def readSized (width : Nat) (bs : List UInt8) : Option (List UInt8 × List UInt8) :=
  (readBytes width bs).bind fun (size, rest) => readBytes (leNat size) rest

/-- The byte string a script starts with a push of, and the rest of the script. -/
def readPush : List UInt8 → Option (List UInt8 × List UInt8)
  | [] => none
  | op :: rest =>
    if op.toNat ≤ 0x4b then readBytes op.toNat rest
    else if op = 0x4c then readSized 1 rest
    else if op = 0x4d then readSized 2 rest
    else if op = 0x4e then readSized 4 rest
    else none

theorem readBytes_sound {len : Nat} {bs data rest : List UInt8}
    (h : readBytes len bs = some (data, rest)) : bs = data ++ rest ∧ data.length = len := by
  unfold readBytes at h
  split at h
  · next hle =>
    cases h
    exact ⟨(List.take_append_drop len bs).symm, List.length_take_of_le hle⟩
  · cases h

theorem readSized_sound {width : Nat} {bs data rest : List UInt8}
    (h : readSized width bs = some (data, rest)) :
    data ++ rest <:+ bs ∧ data.length < 256 ^ width := by
  obtain ⟨⟨size, tail⟩, hsize, hdata⟩ := Option.bind_eq_some_iff.mp h
  obtain ⟨rfl, rfl⟩ := readBytes_sound hsize
  obtain ⟨rfl, hlen⟩ := readBytes_sound hdata
  exact ⟨List.suffix_append _ _, hlen ▸ leNat_lt size⟩

/-- What is read stands at the end of the script, behind one opcode at least. -/
theorem readPush_sound {bs data rest : List UInt8} (h : readPush bs = some (data, rest)) :
    data ++ rest <:+ bs.tail ∧ data.length < 2 ^ 32 := by
  have hwide : ∀ {width : Nat} {tail : List UInt8}, width ≤ 4 →
      readSized width tail = some (data, rest) →
        data ++ rest <:+ tail ∧ data.length < 2 ^ 32 := by
    intro width tail hwidth hread
    obtain ⟨hsuffix, hlen⟩ := readSized_sound hread
    exact ⟨hsuffix, Nat.lt_of_lt_of_le hlen (Nat.pow_le_pow_right (by decide) hwidth)⟩
  cases bs with
  | nil => cases h
  | cons op tail =>
    simp only [readPush] at h
    split at h
    · next hop =>
      obtain ⟨rfl, hlen⟩ := readBytes_sound h
      exact ⟨List.suffix_refl _, hlen ▸ Nat.lt_of_le_of_lt hop (by decide)⟩
    split at h
    · exact hwide (by decide) h
    split at h
    · exact hwide (by decide) h
    split at h
    · exact hwide (by decide) h
    · cases h

theorem length_of_readPush {bs data rest : List UInt8} (h : readPush bs = some (data, rest)) :
    rest.length < bs.length := by
  have hlen := (readPush_sound h).1.length_le
  cases bs with
  | nil => cases h
  | cons op tail =>
    rw [List.length_append, List.tail_cons] at hlen
    rw [List.length_cons]
    omega

/-- The byte strings a script pushes, when it is pushes up to its end. -/
def pushes (script : List UInt8) : Option (List (List UInt8)) :=
  if script = [] then some []
  else
    match _ : readPush script with
    | none => none
    | some (data, rest) => (pushes rest).map (data :: ·)
termination_by script.length
decreasing_by exact length_of_readPush ‹_›

theorem readBytes_append (data rest : List UInt8) :
    readBytes data.length (data ++ rest) = some (data, rest) := by
  simp [readBytes]

theorem readSized_append {width : Nat} {data : List UInt8} (h : data.length < 256 ^ width)
    (rest : List UInt8) :
    readSized width (leBytes width data.length ++ (data ++ rest)) = some (data, rest) := by
  have hsize := readBytes_append (leBytes width data.length) (data ++ rest)
  rw [length_leBytes] at hsize
  simp only [readSized, hsize, Option.bind_some, leNat_leBytes h, readBytes_append]

/-- A push is read back, whatever follows it. -/
theorem readPush_push {data : List UInt8} (h : data.length < 2 ^ 32) (rest : List UInt8) :
    readPush (push data ++ rest) = some (data, rest) := by
  rw [push, pushHeader, List.append_assoc]
  split
  · next hdirect =>
    have hop : (UInt8.ofNat data.length).toNat = data.length :=
      UInt8.toNat_ofNat_of_lt' (Nat.lt_of_le_of_lt hdirect (by decide))
    simp only [List.singleton_append, readPush, hop, if_pos hdirect, readBytes_append]
  split
  · next hone => exact @readSized_append 1 data (Nat.lt_succ_of_le hone) rest
  split
  · next htwo => exact @readSized_append 2 data (Nat.lt_succ_of_le htwo) rest
  · exact @readSized_append 4 data h rest

theorem push_ne_nil (data : List UInt8) : push data ≠ [] := by
  rw [push, pushHeader]
  split
  · simp
  split
  · simp
  split <;> simp

@[simp] theorem pushes_nil : pushes [] = some [] := by
  rw [pushes, if_pos rfl]

theorem pushes_push_append {data : List UInt8} (h : data.length < 2 ^ 32) (rest : List UInt8) :
    pushes (push data ++ rest) = (pushes rest).map (data :: ·) := by
  have hne : push data ++ rest ≠ [] := by simp [push_ne_nil]
  rw [pushes, if_neg hne]
  split
  · next hnone => rw [readPush_push h] at hnone; cases hnone
  · next data' rest' hsome =>
    rw [readPush_push h] at hsome
    cases hsome
    rfl

theorem pushes_eq_some_nil {script : List UInt8} : pushes script = some [] ↔ script = [] := by
  refine ⟨fun h => ?_, fun h => h ▸ pushes_nil⟩
  rw [pushes] at h
  split at h
  · assumption
  split at h
  · cases h
  · obtain ⟨_, -, h⟩ := Option.map_eq_some_iff.mp h
    cases h

theorem pushes_eq_some_cons {script data : List UInt8} {items : List (List UInt8)}
    (h : pushes script = some (data :: items)) :
    ∃ rest, readPush script = some (data, rest) ∧ pushes rest = some items := by
  rw [pushes] at h
  split at h
  · cases h
  split at h
  · cases h
  · next hread =>
    obtain ⟨_, hrest, h⟩ := Option.map_eq_some_iff.mp h
    cases h
    exact ⟨_, hread, hrest⟩

/-- A push gives a length of four bytes at most. -/
theorem length_lt_of_mem_pushes {script : List UInt8} {items : List (List UInt8)}
    (h : pushes script = some items) : ∀ data ∈ items, data.length < 2 ^ 32 := by
  induction items generalizing script with
  | nil => simp
  | cons data items ih =>
    obtain ⟨rest, hread, hrest⟩ := pushes_eq_some_cons h
    exact List.forall_mem_cons.mpr ⟨(readPush_sound hread).2, ih hrest⟩

/-- What a script pushes last ends the script. -/
theorem suffix_of_pushes {script data : List UInt8} {items : List (List UInt8)}
    (h : pushes script = some (items ++ [data])) : data <:+ script := by
  induction items generalizing script with
  | nil =>
    obtain ⟨rest, hread, hrest⟩ := pushes_eq_some_cons h
    obtain rfl : rest = [] := pushes_eq_some_nil.mp hrest
    simpa using (readPush_sound hread).1.trans (List.tail_suffix script)
  | cons first items ih =>
    obtain ⟨rest, hread, hrest⟩ := pushes_eq_some_cons h
    exact (ih hrest).trans ((List.suffix_append first rest).trans
      ((readPush_sound hread).1.trans (List.tail_suffix script)))

/-- A script that is pushes is read back push by push. -/
theorem pushes_flatMap {items : List (List UInt8)} (h : ∀ data ∈ items, data.length < 2 ^ 32) :
    pushes (items.flatMap push) = some items := by
  induction items with
  | nil => exact pushes_nil
  | cons data items ih =>
    rw [List.flatMap_cons, pushes_push_append (h data List.mem_cons_self),
      ih fun d hd => h d (List.mem_cons_of_mem _ hd)]
    rfl

end Script
