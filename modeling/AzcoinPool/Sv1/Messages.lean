import AzcoinPool.Lib.RustStd

/-!
# JSON values and Stratum messages

`serde_json::Value` with the accessors the pool uses, the Stratum V1 request and response, and the
commands a request is mapped to.
-/

namespace AzcoinPool

/-! ## JSON -/

/-- `serde_json::Number`: an unsigned or a negative integer, or a float, kept as its text. -/
inductive JsonNumber where
  | posInt (n : UInt64)
  | negInt (n : Int64)
  | float (text : String)
  deriving DecidableEq

/-- `serde_json::Value`; an object is the list of its members, each name once. -/
inductive Value where
  | null
  | bool (b : Bool)
  | number (n : JsonNumber)
  | string (s : String)
  | array (items : List Value)
  | object (members : List (String × Value))

namespace Value

def asStr : Value → Option String
  | string s => some s
  | _ => none

def asArray : Value → Option (List Value)
  | array items => some items
  | _ => none

def asObject : Value → Option (List (String × Value))
  | object members => some members
  | _ => none

def asU64 : Value → Option UInt64
  | number (.posInt n) => some n
  | _ => none

/-- `json!` of a `u32`. -/
def ofU32 (n : UInt32) : Value := number (.posInt n.toUInt64)

end Value

/-- `Map::get`. -/
def memberGet (members : List (String × Value)) (key : String) : Option Value :=
  members.lookup key

/-- `Map::insert`: a member of that name is replaced. -/
def memberInsert (key : String) (value : Value) : List (String × Value) → List (String × Value)
  | [] => [(key, value)]
  | (k, v) :: members =>
    if k = key then (key, value) :: members else (k, v) :: memberInsert key value members

/-! ## Messages -/

structure Sv1Request where
  id : Option Value
  method : String
  params : Option Value

structure Sv1Error where
  code : Int32
  message : String

structure Sv1Response where
  id : Option Value
  result : Option Value
  error : Option Sv1Error

structure Sv1VersionRollingConfig where
  mask : UInt32
  minBitCount : UInt32
  deriving DecidableEq

inductive Sv1DomainCommand where
  | configure (extensions : List String) (versionRolling : Option Sv1VersionRollingConfig)
  | subscribe
  | authorize (username password : String)
  | submitShare (username jobId : String) (extraNonce2 : Bytes) (ntime nonce : UInt32)
      (versionBits : Option UInt32)
  deriving DecidableEq

end AzcoinPool
