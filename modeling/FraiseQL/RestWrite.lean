import FraiseQL.ExecutorDispatch
import FraiseQL.Idempotency

/-! Writes of one resource (`handle_post`, `handle_put` and `handle_patch` of `rest/handler.rs`, and
`execute_mutation_with_security` of `executor/query.rs`). Without a user the mutation gets the variables of the
request. With one they are printed into a GraphQL text, which is executed without variables; the executor takes
the arguments of a mutation from the variables alone, so none of the request reaches the function. -/

namespace FraiseQL

/-! ### Mutations by name -/

/-- Arguments as they are printed: the key as it is, and the JSON text of the value. -/
def argumentsText (arguments : List (String × Json)) : String :=
  String.intercalate ", " (arguments.map fun a => a.1 ++ ": " ++ a.2.text)

/-- The text that `execute_mutation_with_security` executes. -/
def mutationText (mutationName : String) (arguments : Json) : String :=
  let args := (arguments.asObject?.map argumentsText).getD ""
  let fields := " \x7b status entity_id message \x7d \x7d"
  if args.isEmpty then "mutation \x7b " ++ mutationName ++ fields
  else "mutation \x7b " ++ mutationName ++ "(" ++ args ++ ")" ++ fields

namespace Dispatcher

variable (x : Dispatcher)

def executeMutation (mutationName : String) (vars : Option Json) (typeSelections : TypeSelections) :
    Dispatched Json :=
  executeMutationQueryWithSecurity x.base x.lib x.mutations mutationName vars none typeSelections

def executeMutationWithSecurity (mutationName : String) (arguments : Json) (ctx : Option SecurityContext) :
    Dispatched Json :=
  match ctx with
  | some user => x.executeWithSecurity (mutationText mutationName arguments) none user
  | none => x.execute (mutationText mutationName arguments) none

end Dispatcher

namespace Rest

/-- `execute_mutation` of the handlers. -/
def executeMutation (x : Dispatcher) (mutationName : String) (vars : Option Json) (ctx : Option SecurityContext) :
    Dispatched Json :=
  match ctx with
  | some user => x.executeMutationWithSecurity mutationName (vars.getD (.obj [])) (some user)
  | none => x.executeMutation mutationName vars []

/-! ### Handlers -/

inductive WriteMethod where
  | post | put | patch

/-- A POST, PUT or PATCH request. -/
structure WriteRequest where
  method : WriteMethod
  relativePath : String
  body : Json
  contentType : Option String
  idempotencyKey : Option String
  resolution : Option String
  requestId : String

/-- What the handlers read of the schema; of a mutation's return type the output names of the writable fields. -/
structure WriteConfig extends Idempotency.Config where
  writableFields : String → Option (List String)
  toLowercase : String → String

/-- The mutation a request leads to. -/
structure Write where
  mutation : String
  pathParams : List (String × String)
  body : Json

namespace Write

def vars (w : Write) : List (String × Json) := buildMutationVariables w.pathParams w.body

end Write

def validatePutBody (body : Json) (writable : List String) : Except RestError Unit :=
  match body with
  | .obj entries =>
    let missing := writable.filter fun field => (Json.lookup field entries).isNone
    if missing.isEmpty then .ok ()
    else .error ⟨422, "UNPROCESSABLE_ENTITY",
      "PUT requires all writable fields; " ++ toString missing.length ++ " missing",
      some (.obj [("missing_fields", .arr (missing.map fun field =>
        .obj [("field", .str field), ("message", .str ("Required field '" ++ field ++ "' is missing"))]))])⟩
  | _ => .error (.badRequest "PUT body must be a JSON object")

section Handlers

variable (config : WriteConfig)

/-- `handle_put` up to the execution of the mutation. -/
def handlePut (relativePath : String) (body : Json) : Except RestError Write := do
  let resolved ← match resolve config.table relativePath .put with
    | some resolved => .ok resolved
    | none => .error (.notFound "Route not found")
  let name ← mutationName "PUT" resolved.route
  match config.writableFields name with
  | some writable => validatePutBody body writable
  | none => .ok ()
  return ⟨name, resolved.pathParams, body⟩

def patchContentType (contentType : Option String) : Except RestError Unit :=
  match contentType with
  | none => .ok ()
  | some contentType =>
    let lower := (config.toLowercase contentType).toList
    if RustText.containsText "application/json".toList lower ∨
        RustText.containsText "application/merge-patch+json".toList lower then .ok ()
    else .error
      (.badRequest "PATCH requires Content-Type: application/json or application/merge-patch+json")

/-- `handle_patch` up to the execution of the mutation; a path without parameters is that of a collection. -/
def handlePatch (relativePath : String) (body : Json) (contentType : Option String) :
    Except RestError (Option Write) := do
  patchContentType config contentType
  match resolve config.table relativePath .patch with
  | some resolved =>
    if resolved.pathParams.isEmpty then return none
    else
      let name ← mutationName "PATCH" resolved.route
      return some ⟨name, resolved.pathParams, body⟩
  | none => return none

/-- `handle_post` up to the execution of the mutation, unless it is that of an array body. -/
def handlePost (now : Nat) (entries : Idempotency.Entries) (request : WriteRequest) : Option Write :=
  let post : Idempotency.Post := ⟨request.relativePath, request.body, request.idempotencyKey, request.resolution,
    request.requestId, none⟩
  match (Idempotency.handlePost config.toConfig now entries post).1, resolve config.table request.relativePath .post with
  | .admitted mutation _ _, some resolved => some ⟨mutation, resolved.pathParams, request.body⟩
  | _, _ => none

/-- The mutation that a request for one resource leads to; none when it is answered before. -/
def writeOf (now : Nat) (entries : Idempotency.Entries) (request : WriteRequest) : Option Write :=
  match request.method with
  | .post => handlePost config now entries request
  | .put => (handlePut config request.relativePath request.body).toOption
  | .patch => (handlePatch config request.relativePath request.body request.contentType).toOption.bind id

def executeWrite (x : Dispatcher) (w : Write) (ctx : Option SecurityContext) : Dispatched Json :=
  executeMutation x w.mutation (some (.obj w.vars)) ctx

/-- The run of the handler of a request; nothing is returned where no write is executed. -/
def handleWrite (x : Dispatcher) (now : Nat) (entries : Idempotency.Entries) (request : WriteRequest)
    (ctx : Option SecurityContext) : Dispatched (Option Json) :=
  match writeOf config now entries request with
  | none => .lift (.ok none)
  | some w => do
    let result ← executeWrite x w ctx
    return some result

end Handlers

end Rest

end FraiseQL
