import AzcoinPool.Core.Job
import Mathlib.Logic.Function.Basic

/-!
# The active-job registry

`pool_core`'s `ActiveJobRegistry`: a map from job ids to jobs and the queue of the ids in order of
registration, bounded by `activeJobsMax`. Registering a clean job empties both first; a known id is
left as it is; otherwise the oldest ids make room. What a lookup can find after a registration is
said once (`getJob_register_eq_some`, `getJob_register_of_clean`).
-/

namespace AzcoinPool

/-- `ACTIVE_JOBS_MAX`. -/
def activeJobsMax : Nat := 64

/-- `ActiveJobRegistryInner`. -/
structure ActiveJobRegistry where
  byId : String → Option Job
  order : List String

namespace ActiveJobRegistry

/-- `ActiveJobRegistry::new`. -/
def new : ActiveJobRegistry := ⟨fun _ => none, []⟩

/-- The eviction loop of `register`: the oldest id goes as long as the queue is full. -/
def evict (byId : String → Option Job) : List String → ActiveJobRegistry
  | [] => ⟨byId, []⟩
  | oldId :: order =>
    if activeJobsMax ≤ (oldId :: order).length then
      evict (Function.update byId oldId none) order
    else ⟨byId, oldId :: order⟩

def register (r : ActiveJobRegistry) (job : Job) : ActiveJobRegistry :=
  let r := if job.cleanJobs then new else r
  if (r.byId job.jobId).isSome then r
  else
    let r := evict r.byId r.order
    ⟨Function.update r.byId job.jobId (some job), r.order ++ [job.jobId]⟩

def contains (r : ActiveJobRegistry) (jobId : String) : Bool := (r.byId jobId).isSome

def getJob (r : ActiveJobRegistry) (jobId : String) : Option Job := r.byId jobId

@[simp] theorem getJob_new (k : String) : new.getJob k = none := rfl

/-- Eviction only forgets. -/
theorem byId_evict {byId : String → Option Job} {order : List String} {k : String} {j : Job}
    (h : (evict byId order).byId k = some j) : byId k = some j := by
  induction order generalizing byId with
  | nil => exact h
  | cons oldId order ih =>
    rw [evict] at h
    split at h
    · have hupd := ih h
      by_cases hk : k = oldId
      · subst hk
        rw [Function.update_self] at hupd
        cases hupd
      · rwa [Function.update_of_ne hk] at hupd
    · exact h

/-- After a registration a lookup finds the job registered or what it found before. -/
theorem getJob_register_eq_some {r : ActiveJobRegistry} {job : Job} {k : String} {j : Job}
    (h : (r.register job).getJob k = some j) :
    (k = job.jobId ∧ j = job) ∨ r.getJob k = some j := by
  rw [register, getJob] at h
  -- what the registry holds once a clean job has emptied it
  generalize hr₀ : (if job.cleanJobs = true then new else r) = r₀ at h
  have hstart : ∀ {k' j'}, r₀.byId k' = some j' → r.getJob k' = some j' := by
    intro k' j' hj
    subst hr₀
    split at hj
    · cases hj
    · exact hj
  dsimp only at h
  split at h
  · exact .inr (hstart h)
  · by_cases hk : k = job.jobId
    · subst hk
      simp only [Function.update_self, Option.some.injEq] at h
      exact .inl ⟨rfl, h.symm⟩
    · simp only [Function.update_of_ne hk] at h
      exact .inr (hstart (byId_evict h))

/-- A clean registration leaves nothing but the job registered. -/
theorem getJob_register_of_clean (r : ActiveJobRegistry) {job : Job} (hclean : job.cleanJobs = true)
    (k : String) : (r.register job).getJob k = if k = job.jobId then some job else none := by
  rw [register, hclean]
  simp [new, evict, getJob, Function.update_apply]

end ActiveJobRegistry

end AzcoinPool
