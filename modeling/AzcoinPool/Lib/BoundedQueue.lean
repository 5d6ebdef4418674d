import Mathlib.Data.List.DropRight
import Mathlib.Data.List.Nodup
import Mathlib.Logic.Function.Basic

/-!
# Bounded queues

Two ways a program keeps the most recent entries of a stream. `push` is the ring that drops its
oldest entry when it is full: behind any stream it holds the last `cap` entries (`foldl_push`).
`Represents` relates a map and a queue of keys to the list of entries they stand for: the queue is
the list's keys, without duplicates, and the map is lookup in the list. Dropping the oldest key of
both and appending a new entry to both keep the relation (`Represents.pop`, `Represents.push`).
-/

namespace BoundedQueue

/-! ## Rings -/

section
variable {α : Type*} {cap : Nat}

/-- Append an entry; the oldest goes when the queue is full. -/
def push (cap : Nat) (l : List α) (a : α) : List α :=
  (if cap ≤ l.length then l.tail else l) ++ [a]

theorem length_rtake (l : List α) (n : Nat) : (l.rtake n).length = min n l.length := by
  rw [List.rtake, List.length_drop]
  omega

/-- A list within the bound is all recent. -/
theorem rtake_eq_self {l : List α} {n : Nat} (h : l.length ≤ n) : l.rtake n = l := by
  rw [List.rtake, Nat.sub_eq_zero_of_le h, List.drop_zero]

/-- Of a list over the bound the head is not recent. -/
theorem rtake_cons {l : List α} {n : Nat} (h : n ≤ l.length) (a : α) :
    (a :: l).rtake n = l.rtake n := by
  rw [List.rtake, List.rtake, List.length_cons, Nat.succ_sub h, List.drop_succ_cons]

/-- The recent entries of a longer stream, from those of the stream. -/
theorem push_rtake (hcap : 0 < cap) (l : List α) (a : α) :
    push cap (l.rtake cap) a = (l ++ [a]).rtake cap := by
  obtain ⟨k, rfl⟩ := Nat.exists_eq_succ_of_ne_zero hcap.ne'
  rw [List.rtake_concat_succ, push, length_rtake]
  congr 1
  split
  · next h =>
    rw [List.rtake, List.tail_drop, List.rtake]
    congr 1
    omega
  · next h => rw [rtake_eq_self (by omega), rtake_eq_self (by omega)]

/-- Behind a stream the ring holds its last `cap` entries. -/
theorem foldl_push (hcap : 0 < cap) (l : List α) : l.foldl (push cap) [] = l.rtake cap := by
  induction l using List.reverseRecOn with
  | nil => simp
  | append_singleton l a ih => rw [List.foldl_concat, ih, push_rtake hcap]

end

/-! ## A map and a queue of its keys -/

section
variable {α κ : Type*} [DecidableEq κ] (key : α → κ)

/-- The first entry of a list with the key. -/
def lookup (l : List α) (k : κ) : Option α := l.find? fun a => decide (key a = k)

/-- A map and a queue of keys stand for a list of entries. -/
structure Represents (byKey : κ → Option α) (order : List κ) (l : List α) : Prop where
  order_eq : order = l.map key
  nodup : order.Nodup
  byKey_eq : ∀ k, byKey k = lookup key l k

end

namespace Represents
variable {α κ : Type*} [DecidableEq κ] {key : α → κ} {byKey : κ → Option α} {order : List κ}
  {l : List α} {a : α} {k : κ}

theorem nil : Represents key (fun _ => none) [] [] := ⟨rfl, .nil, fun _ => rfl⟩

theorem length_order (h : Represents key byKey order l) : order.length = l.length := by
  rw [h.order_eq, List.length_map]

/-- An entry found has the key that was asked for. -/
theorem key_eq (h : Represents key byKey order l) (hk : byKey k = some a) : key a = k := by
  rw [h.byKey_eq, lookup] at hk
  simpa using List.find?_some hk

/-- The map's keys are the queue's elements. -/
theorem isSome_iff (h : Represents key byKey order l) (k : κ) :
    (byKey k).isSome = true ↔ k ∈ order := by
  rw [h.byKey_eq, h.order_eq, lookup, List.find?_isSome]
  simp

/-- The oldest key leaves the map and the queue. -/
theorem pop (h : Represents key byKey (k :: order) (a :: l)) :
    Represents key (Function.update byKey k none) order l := by
  obtain ⟨rfl, rfl⟩ := List.cons.inj h.order_eq
  obtain ⟨hfresh, hnodup⟩ := List.nodup_cons.mp h.nodup
  refine ⟨rfl, hnodup, fun k' => ?_⟩
  by_cases hk : k' = key a
  · subst hk
    rw [Function.update_self, eq_comm, lookup, List.find?_eq_none]
    intro b hb heq
    exact hfresh (List.mem_map.mpr ⟨b, hb, by simpa using heq⟩)
  · rw [Function.update_of_ne hk, h.byKey_eq, lookup, List.find?_cons_of_neg (by simp [Ne.symm hk])]
    rfl

/-- A new entry goes to the end of both. -/
theorem push (h : Represents key byKey order l) (hnew : byKey (key a) = none) :
    Represents key (Function.update byKey (key a) (some a)) (order ++ [key a]) (l ++ [a]) := by
  have hfresh : key a ∉ order := by rw [← h.isSome_iff, hnew]; simp
  refine ⟨by rw [h.order_eq, List.map_append, List.map_singleton], ?_, fun k' => ?_⟩
  · exact List.nodup_append'.mpr
      ⟨h.nodup, List.nodup_singleton _, by simpa using hfresh⟩
  · rw [lookup, List.find?_append]
    by_cases hk : k' = key a
    · subst hk
      have hnone : l.find? (fun b => decide (key b = key a)) = none := by
        rw [← hnew, h.byKey_eq, lookup]
      simp [hnone]
    · have hlast : [a].find? (fun b => decide (key b = k')) = none := by simp [Ne.symm hk]
      rw [Function.update_of_ne hk, h.byKey_eq, hlast, Option.or_none, lookup]

end Represents

end BoundedQueue
