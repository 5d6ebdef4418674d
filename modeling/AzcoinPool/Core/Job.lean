import AzcoinPool.Lib.RustStd

/-!
# Jobs and shares

The protocol-agnostic data of `pool_core`: the mining job with the block-assembly data that never
leaves the pool, the worker identity, and a share submission with its validation context and its
result. `Job.SameWork` compares what a share is hashed against.
-/

namespace AzcoinPool

/-- Block-assembly data of an RPC job, kept for block construction. -/
structure BlockAssemblyData where
  height : UInt64
  coinbaseValue : UInt64
  coinbaseAuxFlags : Option Bytes
  templateTransactions : List Bytes
  defaultWitnessCommitment : Option Bytes
  deriving DecidableEq

/-- A mining job. -/
structure Job where
  jobId : String
  prevHash : Bytes32
  coinbasePart1 : Bytes
  coinbasePart2 : Bytes
  merkleBranch : List Bytes32
  version : UInt32
  nbits : UInt32
  ntime : UInt32
  cleanJobs : Bool
  blockAssembly : Option BlockAssemblyData
  deriving DecidableEq

/-- The block height of a job, zero without block-assembly data. -/
def Job.height (job : Job) : UInt64 := (job.blockAssembly.map (·.height)).getD 0

/-- Two jobs give a share the same header: they agree in everything that is hashed and is not part
of the share itself. -/
structure Job.SameWork (a b : Job) : Prop where
  prevHash : a.prevHash = b.prevHash
  coinbasePart1 : a.coinbasePart1 = b.coinbasePart1
  coinbasePart2 : a.coinbasePart2 = b.coinbasePart2
  merkleBranch : a.merkleBranch = b.merkleBranch
  version : a.version = b.version
  nbits : a.nbits = b.nbits

namespace Job.SameWork

@[refl] theorem refl (a : Job) : SameWork a a := ⟨rfl, rfl, rfl, rfl, rfl, rfl⟩

theorem symm {a b : Job} (h : SameWork a b) : SameWork b a :=
  ⟨h.1.symm, h.2.symm, h.3.symm, h.4.symm, h.5.symm, h.6.symm⟩

instance (a b : Job) : Decidable (SameWork a b) :=
  decidable_of_iff (a.prevHash = b.prevHash ∧ a.coinbasePart1 = b.coinbasePart1 ∧
      a.coinbasePart2 = b.coinbasePart2 ∧ a.merkleBranch = b.merkleBranch ∧
      a.version = b.version ∧ a.nbits = b.nbits)
    ⟨fun ⟨h₁, h₂, h₃, h₄, h₅, h₆⟩ => ⟨h₁, h₂, h₃, h₄, h₅, h₆⟩,
      fun h => ⟨h.1, h.2, h.3, h.4, h.5, h.6⟩⟩

end Job.SameWork

/-- The identity of a worker: `username.worker_name`, or a bare user name. -/
structure WorkerIdentity where
  id : String
  username : Option String
  workerName : Option String
  deriving DecidableEq

/-- `split_once('.')`: the text before and after the first dot. -/
def splitOnceDot (s : String) : Option (String × String) :=
  match s.toList.dropWhile (· ≠ '.') with
  | [] => none
  | _ :: after => some (String.ofList (s.toList.takeWhile (· ≠ '.')), String.ofList after)

def parseWorkerParts (id : String) : Option String × Option String :=
  match splitOnceDot id with
  | some (u, w) => (some u, if w = "" then none else some w)
  | none => (some id, none)

def WorkerIdentity.new (id : String) : WorkerIdentity :=
  ⟨id, (parseWorkerParts id).1, (parseWorkerParts id).2⟩

@[simp] theorem WorkerIdentity.id_new (id : String) : (WorkerIdentity.new id).id = id := rfl

/-- What the session knows about a share beyond its wire fields. -/
structure ShareValidationContext where
  expectedExtraNonce2Len : Option Nat
  extranonce1Hex : Option String
  versionRollingMask : Option UInt32
  versionBits : Option UInt32
  deriving DecidableEq

structure ShareSubmission where
  jobId : String
  worker : WorkerIdentity
  extraNonce2 : Bytes
  ntime : UInt32
  nonce : UInt32
  validationContext : Option ShareValidationContext
  deriving DecidableEq

inductive ShareResult where
  | accepted
  | block
  | lowDifficulty (reason : String)
  | malformed (reason : String)
  | unknownJob (reason : String)
  | rejected (reason : String)
  deriving DecidableEq

def ShareResult.isAccepted : ShareResult → Bool
  | accepted | block => true
  | _ => false

def ShareResult.rejectReason : ShareResult → Option String
  | accepted | block => none
  | lowDifficulty reason | malformed reason | unknownJob reason | rejected reason => some reason

/-- A result carries a reason just when it is not accepted. -/
theorem ShareResult.rejectReason_eq_none (r : ShareResult) :
    r.rejectReason = none ↔ r.isAccepted = true := by
  cases r <;> simp [rejectReason, isAccepted]

/-! ## A fixture -/

/-- A share of a session that has not negotiated version rolling. -/
def fixtureShare (jobId : String) : ShareSubmission where
  jobId := jobId
  worker := WorkerIdentity.new "u.w"
  extraNonce2 := [0x11, 0x22, 0x33, 0x44]
  ntime := 0x6553f100
  nonce := 0x12345678
  validationContext := some ⟨some 4, some "00000001", none, none⟩

end AzcoinPool
