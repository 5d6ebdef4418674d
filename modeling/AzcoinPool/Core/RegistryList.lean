import AzcoinPool.Core.Registry
import AzcoinPool.Lib.BoundedQueue

/-!
# The active-job registry as a bounded list

What the registry is for: the list of the last jobs registered, `RecentJobs`. A clean job empties
it, a known id leaves it as it is, and a new job takes the place behind the 63 most recent ones. The
registry's map and queue represent that list behind every sequence of registrations
(`refines_register`, `registry_refines_recentJobs`). The eviction of `register` is a `while` loop in
the source; `evictLoop` is that loop with its tests counted, and no state the registry reaches needs
more than two of them (`evictLoop_eq_evict`).
-/

open BoundedQueue

namespace AzcoinPool

/-! ## The list -/

/-- The jobs a registry holds, oldest first. -/
abbrev RecentJobs := List Job

/-- A registration, on the list. -/
def RecentJobs.register (l : RecentJobs) (job : Job) : RecentJobs :=
  let l := if job.cleanJobs then [] else l
  if l.any fun j => decide (j.jobId = job.jobId) then l
  else l.rtake (activeJobsMax - 1) ++ [job]

namespace ActiveJobRegistry

/-! ## The loop -/

/-- `while inner.order.len() >= ACTIVE_JOBS_MAX`, with a bound on how often the condition is
tested: an id that is there is removed from the queue and the map, and the loop goes on. -/
def evictLoop : Nat → ActiveJobRegistry → Option ActiveJobRegistry
  | 0, _ => none
  | tests + 1, r =>
    if activeJobsMax ≤ r.order.length then
      match r.order with
      | oldId :: order => evictLoop tests ⟨Function.update r.byId oldId none, order⟩
      | [] => evictLoop tests r
    else some r

/-- The loop ends once it may test its condition more often than the queue is too long, and has
then evicted. -/
theorem evictLoop_eq_evict {tests : Nat} {r : ActiveJobRegistry}
    (h : r.order.length + 1 < tests + activeJobsMax) (htests : 0 < tests) :
    evictLoop tests r = some (evict r.byId r.order) := by
  induction tests generalizing r with
  | zero => exact absurd htests (Nat.lt_irrefl 0)
  | succ tests ih =>
    rw [evictLoop]
    split
    · next hfull =>
      obtain ⟨byId, order⟩ := r
      cases order with
      | nil => exact absurd (show activeJobsMax ≤ 0 from hfull) (by decide)
      | cons oldId order =>
        rw [evict, if_pos hfull]
        simp only [List.length_cons] at h hfull
        exact ih (by simp only; omega) (by omega)
    · next hfull =>
      obtain ⟨byId, order⟩ := r
      cases order with
      | nil => rfl
      | cons oldId order => rw [evict, if_neg hfull]

/-- `register` with the loop of the source. -/
def registerLoop (tests : Nat) (r : ActiveJobRegistry) (job : Job) : Option ActiveJobRegistry :=
  let r := if job.cleanJobs then new else r
  if (r.byId job.jobId).isSome then some r
  else (evictLoop tests r).map fun r =>
    ⟨Function.update r.byId job.jobId (some job), r.order ++ [job.jobId]⟩

/-! ## The registry represents the list -/

/-- The map and the queue stand for a list of jobs. -/
def Refines (r : ActiveJobRegistry) (l : RecentJobs) : Prop :=
  Represents Job.jobId r.byId r.order l

theorem refines_new : new.Refines [] := Represents.nil

/-- Eviction keeps the 63 most recent jobs. -/
theorem refines_evict {byId : String → Option Job} {order : List String} {l : RecentJobs}
    (h : Represents Job.jobId byId order l) :
    (evict byId order).Refines (l.rtake (activeJobsMax - 1)) := by
  induction order generalizing byId l with
  | nil =>
    have hl : l = [] := List.length_eq_zero_iff.mp h.length_order.symm
    subst hl
    exact h
  | cons oldId order ih =>
    have hlen := h.length_order
    cases l with
    | nil => cases hlen
    | cons job l =>
      rw [evict]
      split
      · next hfull =>
        rw [List.length_cons, List.length_cons] at hlen
        rw [List.length_cons] at hfull
        rw [rtake_cons (by omega)]
        exact ih h.pop
      · next hfull =>
        rw [hlen] at hfull
        rw [rtake_eq_self (by omega)]
        exact h

/-- A registration keeps the registry and the list in step. -/
theorem refines_register {r : ActiveJobRegistry} {l : RecentJobs} (h : r.Refines l) (job : Job) :
    (r.register job).Refines (l.register job) := by
  have hstart : (if job.cleanJobs = true then new else r).Refines
      (if job.cleanJobs = true then [] else l) := by
    split
    · exact refines_new
    · exact h
  rw [register, RecentJobs.register]
  generalize (if job.cleanJobs = true then new else r) = r₀ at hstart ⊢
  generalize (if job.cleanJobs = true then [] else l) = l₀ at hstart ⊢
  have hknown : (r₀.byId job.jobId).isSome = l₀.any fun j => decide (j.jobId = job.jobId) := by
    rw [hstart.byKey_eq, lookup, List.isSome_find?]
  dsimp only
  rw [hknown]
  split
  · exact hstart
  · next hnew =>
    refine (refines_evict hstart).push ?_
    cases hold : (evict r₀.byId r₀.order).byId job.jobId with
    | none => rfl
    | some j =>
      rw [← hknown, byId_evict hold] at hnew
      exact absurd rfl hnew

/-- The list never holds more jobs than the bound. -/
theorem length_recentJobs_register {l : RecentJobs} (h : l.length ≤ activeJobsMax) (job : Job) :
    (l.register job).length ≤ activeJobsMax := by
  have hstart : (if job.cleanJobs = true then [] else l).length ≤ activeJobsMax := by
    split
    · exact Nat.zero_le _
    · exact h
  rw [RecentJobs.register]
  generalize (if job.cleanJobs = true then [] else l) = l₀ at hstart ⊢
  split
  · exact hstart
  · rw [List.length_append, List.length_singleton, length_rtake]
    have : activeJobsMax = 64 := rfl
    omega

/-- Behind any sequence of registrations the registry stands for the list, which keeps its bound. -/
theorem refines_foldl_register (jobs : List Job) :
    (jobs.foldl register new).Refines (jobs.foldl RecentJobs.register []) ∧
      (jobs.foldl RecentJobs.register []).length ≤ activeJobsMax := by
  induction jobs using List.reverseRecOn with
  | nil => exact ⟨refines_new, Nat.zero_le _⟩
  | append_singleton jobs job ih =>
    rw [List.foldl_concat, List.foldl_concat]
    exact ⟨refines_register ih.1 job, length_recentJobs_register ih.2 job⟩

/-- The loop of a registration tests its condition twice at most. -/
theorem registerLoop_eq_register {r : ActiveJobRegistry} (hlen : r.order.length ≤ activeJobsMax)
    {tests : Nat} (htests : 2 ≤ tests) (job : Job) :
    registerLoop tests r job = some (r.register job) := by
  have hstart : (if job.cleanJobs = true then new else r).order.length ≤ activeJobsMax := by
    split
    · exact Nat.zero_le _
    · exact hlen
  rw [registerLoop, register]
  generalize (if job.cleanJobs = true then new else r) = r₀ at hstart ⊢
  dsimp only
  split
  · rfl
  · rw [evictLoop_eq_evict (by omega) (by omega), Option.map_some]

/-- Behind every sequence of registrations the registry is the bounded list of recent jobs: its
queue is the list's ids, without duplicates and within the bound, its map's keys are the queue's
elements, each job is found under its own id, the two lookups are lookups in the list, and the
eviction of the next registration ends. -/
theorem registry_refines_recentJobs (jobs : List Job) :
    let r := jobs.foldl register new
    let l := jobs.foldl RecentJobs.register []
    (∀ k, (r.byId k).isSome = true ↔ k ∈ r.order) ∧ r.order = l.map Job.jobId ∧ r.order.Nodup ∧
      r.order.length ≤ activeJobsMax ∧ (∀ k job, r.byId k = some job → job.jobId = k) ∧
      (∀ k, r.contains k = l.any fun job => decide (job.jobId = k)) ∧
      (∀ k, r.getJob k = l.find? fun job => decide (job.jobId = k)) ∧
      ∀ job tests, 2 ≤ tests → registerLoop tests r job = some (r.register job) := by
  intro r l
  obtain ⟨href, hbound⟩ := refines_foldl_register jobs
  have hlen : r.order.length ≤ activeJobsMax := by rw [href.length_order]; exact hbound
  refine ⟨href.isSome_iff, href.order_eq, href.nodup, hlen, fun k job => href.key_eq, fun k => ?_,
    href.byKey_eq, fun job tests htests => registerLoop_eq_register hlen htests job⟩
  rw [contains, href.byKey_eq, lookup, List.isSome_find?]

end ActiveJobRegistry

end AzcoinPool
