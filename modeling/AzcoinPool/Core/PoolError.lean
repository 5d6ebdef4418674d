/-!
# The pool's error

`PoolError` with the texts of its `Display`.
-/

namespace AzcoinPool

inductive PoolError where
  | config (message : String)
  | protocol (message : String)
  | storage (message : String)
  | daemon (message : String)
  | internal (message : String)
  deriving DecidableEq

/-- `to_string` of the error. -/
def PoolError.display : PoolError → String
  | config message => "configuration error: " ++ message
  | protocol message => "protocol error: " ++ message
  | storage message => "storage error: " ++ message
  | daemon message => "daemon/RPC error: " ++ message
  | internal message => "internal error: " ++ message

end AzcoinPool
