import AzcoinPool.Core.Job
import AzcoinPool.Lib.Hex
import AzcoinPool.Sv1.Messages

/-!
# The notification of a job

`notify.rs`: a job as the parameters of `mining.notify`. The previous hash goes out with the bytes
of each four-byte word swapped, a branch entry with all its bytes reversed, and the integers as
big-endian hexadecimal text.
-/

namespace AzcoinPool

/-- The bytes of each complete four-byte chunk in the opposite order. -/
def wordSwap : Bytes → Bytes
  | a :: b :: c :: d :: rest => d :: c :: b :: a :: wordSwap rest
  | _ => []

def hexEncodePrevhashSv1 (bytes : Bytes32) : String := Hex.encode (wordSwap bytes.bytes)

def hexEncodeReversed (bytes : Bytes32) : String := Hex.encode bytes.bytes.reverse

def buildMiningNotify (job : Job) : Value :=
  .object [
    ("method", .string "mining.notify"),
    ("params", .array [
      .string job.jobId,
      .string (hexEncodePrevhashSv1 job.prevHash),
      .string (Hex.encode job.coinbasePart1),
      .string (Hex.encode job.coinbasePart2),
      .array (job.merkleBranch.map fun branch => .string (hexEncodeReversed branch)),
      .string (lowerHex08 job.version),
      .string (lowerHex08 job.nbits),
      .string (lowerHex08 job.ntime),
      .bool job.cleanJobs])]

/-- Swapping the words of whole words twice changes nothing. -/
theorem wordSwap_wordSwap {bs : Bytes} (h : bs.length % 4 = 0) : wordSwap (wordSwap bs) = bs := by
  induction bs using wordSwap.induct with
  | case1 a b c d rest ih =>
    have hrest : rest.length % 4 = 0 := by
      simp only [List.length_cons] at h
      omega
    simp only [wordSwap, ih hrest]
  | case2 bs hbs =>
    match bs, hbs, h with
    | [], _, _ => rfl
    | [_], _, h => simp at h
    | [_, _], _, h => simp at h
    | [_, _, _], _, h => simp at h
    | a :: b :: c :: d :: rest, hbs, _ => exact absurd rfl (hbs a b c d rest)

end AzcoinPool
