import AzcoinPool.Coin.TemplateMapper

/-!
# The node API

`node_api.rs` and `api_template_mapper.rs`: the template the node's REST API hands out, the job it
is mapped to, and the share that is reported to the API. The API has neither transactions nor a
coinbase, so a job of it has placeholder coinbase parts and no block-assembly data.
-/

namespace AzcoinPool

structure NodeApiTemplate where
  jobId : String
  prevHash : String
  version : UInt32
  nbits : String
  ntime : String
  cleanJobs : Bool
  height : UInt64

/-! ## From a template to a job -/

/-- `ntime_hex_to_u32`. -/
def ntimeHexToU32 (s : String) : Except PoolError UInt32 := do
  let bytes ← (Hex.decode (trim s)).mapError fun e => .daemon ("ntime hex: " ++ e.display)
  if bytes.length ≠ 4 then
    .error (.daemon ("ntime length " ++ bytes.length.repr ++ " != 4"))
  else .ok (fromLeBytes bytes)

/-- `build_coinbase_parts` of the API's mapper: five fixed bytes and the height, and four bytes. -/
def buildApiCoinbaseParts (template : NodeApiTemplate) : Bytes × Bytes :=
  ([0x01, 0x00, 0x00, 0x00, 0x00] ++ Endian.leBytes 8 template.height.toNat,
    [0xff, 0xff, 0xff, 0xff])

def apiTemplateToJob (template : NodeApiTemplate) : Except PoolError Job := do
  let prevHash ← decodePrevHash template.prevHash
  let nbits ← decodeBits template.nbits
  let ntime ← ntimeHexToU32 template.ntime
  let (coinbasePart1, coinbasePart2) := buildApiCoinbaseParts template
  return {
    jobId := template.jobId
    prevHash := prevHash
    coinbasePart1 := coinbasePart1
    coinbasePart2 := coinbasePart2
    merkleBranch := []
    version := template.version
    nbits := nbits
    ntime := ntime
    cleanJobs := template.cleanJobs
    blockAssembly := none }

/-- A job that was mapped has the block time its template's text was read as. -/
theorem ntime_of_apiTemplateToJob {template : NodeApiTemplate} {job : Job}
    (h : apiTemplateToJob template = .ok job) : ntimeHexToU32 template.ntime = .ok job.ntime := by
  rw [apiTemplateToJob] at h
  obtain ⟨prevHash, -, h⟩ := Except.bind_eq_ok.mp h
  obtain ⟨nbits, -, h⟩ := Except.bind_eq_ok.mp h
  obtain ⟨ntime, hntime, h⟩ := Except.bind_eq_ok.mp h
  cases h
  exact hntime

/-! ## The report of a share -/

structure NodeApiShareRequest where
  ts : Int64
  worker : String
  jobId : String
  extranonce2 : String
  ntime : String
  nonce : String
  accepted : Bool
  duplicate : Bool
  shareDiff : UInt32
  reason : String
  deriving DecidableEq

/-- `build_share_request` at a time `ts`. -/
def buildShareRequest (ts : Int64) (share : ShareSubmission) (result : ShareResult)
    (poolDifficulty : UInt32) : NodeApiShareRequest where
  ts := ts
  worker := share.worker.id
  jobId := share.jobId
  extranonce2 := Hex.encode share.extraNonce2
  ntime := lowerHex08 share.ntime
  nonce := lowerHex08 share.nonce
  accepted := result.isAccepted
  duplicate := false
  shareDiff := poolDifficulty
  reason := result.rejectReason.getD ""

/-! ## A fixture -/

/-- The payload of the API's tests. -/
def fixtureApiTemplate : NodeApiTemplate where
  jobId := "c68fdce62b92e2d8"
  prevHash := "0000000000000000c589462bc769be8b4a12fddd736d5bd5e47966e10421222b"
  version := 536870912
  nbits := "1a020e7c"
  ntime := "69b33a70"
  cleanJobs := true
  height := 808523

end AzcoinPool
