/-! The errors of the observers (`fraiseql-observers/src/error.rs`), with the variants the modelled functions
return or receive. -/

namespace FraiseQL

inductive ObserverError where
  | invalidConfig (message : String)
  | invalidCondition (reason : String)
  | actionExecutionFailed (reason : String)
  | actionPermanentlyFailed (reason : String)
  | databaseError (reason : String)
  | serializationError (message : String)
  | sqlxError (message : String)
  | transportPublishFailed (reason : String)
  deriving DecidableEq

namespace ObserverError

/-- `From<redis::RedisError>`. -/
def ofRedis (message : String) : ObserverError := .databaseError ("Redis error: " ++ message)

end ObserverError

end FraiseQL
