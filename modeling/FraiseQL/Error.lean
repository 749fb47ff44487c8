/-! The error type shared by the crates. A variant keeps the fields the modelled functions fill in; the
`source` of an internal error is always absent there. -/

namespace FraiseQL

inductive FraiseQLError where
  | validation (message : String) (path : Option String)
  | internal (message : String)
  | parse (message location : String)
  | authorization (message : String) (action resource : Option String)
  | database (message : String) (sqlState : Option String)
  deriving DecidableEq

end FraiseQL
