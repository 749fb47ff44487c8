import FraiseQL.AggregateSql
import FraiseQL.QueryPipeline
import FraiseQL.WindowQuery

/-! Mutations (`executor/mutation.rs`): how the definition is found, how its SQL function is named, and which
arguments the function is called with. The calls of the special roots are those of the read paths, statements
of the analytic pipelines, and function calls. What is made of the row that a function returns reads neither the
user nor the request and is a parameter. -/

namespace FraiseQL

open Graphql (Library suggestSimilar)

/-! ### Calls -/

/-- What the executor calls out for, with the plan that a statement was generated from. -/
inductive DispatchCall where
  | read (call : Call)
  | aggregate (plan : Aggregate.Plan) (statement : Aggregate.SqlGenerator.ParameterizedSql)
  | window (plan : Window.ExecutionPlan) (statement : Window.SqlGenerator.WindowSql)
  | callFunction (name : String) (arguments : List Json)

abbrev Dispatched := Traced FraiseQLError DispatchCall

/-- A read path among the special roots. -/
def ofRead {α : Type} (run : Exec α) : Dispatched α := run.relabel .read

/-! ### Definitions -/

/-- `ArgumentDefinition`; a default value is kept as the JSON it is converted to. -/
structure ArgumentDefinition where
  name : String
  argType : FieldType
  nullable : Bool
  defaultValue : Option Json

inductive MutationOperation where
  | insert (table : String)
  | update (table : String)
  | delete (table : String)
  | custom

structure MutationDefinition where
  name : String
  returnType : String
  arguments : List ArgumentDefinition
  operation : MutationOperation
  sqlSource : Option String
  injectParams : List (String × InjectedParamSource)

/-- `InputObjectDefinition`; of a field the runtime reads the name. -/
structure InputObjectDefinition where
  name : String
  fields : List String

/-- The selected response keys by type condition; fields outside any fragment are under the empty name. -/
abbrev TypeSelections := List (String × List String)

/-- What mutations read of the schema and the adapter. -/
structure MutationSchema where
  mutations : List MutationDefinition
  inputTypes : List InputObjectDefinition
  supportsMutations : Bool
  executeFunctionCall : String → List Json → Except FraiseQLError (List Json)
  respond : MutationDefinition → TypeSelections → Json → Except FraiseQLError Json

/-- The mutation index: of two mutations with one name the later stands. -/
def indexedMutation (lib : Library) (mutations : List MutationDefinition) (name : String) :
    Option MutationDefinition :=
  mutations.reverse.find? fun m => m.name = name ∨ lib.displayName m.name = name

def findMutation (lib : Library) (mutations : List MutationDefinition) (name : String) : Option MutationDefinition :=
  (indexedMutation lib mutations name).or (indexedMutation lib mutations (lib.snakeCase name))

/-- The message for an unknown mutation. -/
def unknownMutation (name : String) : List String → String
  | [] => "Mutation '" ++ name ++ "' not found in schema"
  | [s] => "Mutation '" ++ name ++ "' not found in schema. Did you mean '" ++ s ++ "'?"
  | [a, b] => "Mutation '" ++ name ++ "' not found in schema. Did you mean '" ++ a ++ "' or '" ++ b ++ "'?"
  | a :: b :: c :: _ =>
    "Mutation '" ++ name ++ "' not found in schema. Did you mean '" ++ a ++ "', '" ++ b ++ "', or '" ++ c ++ "'?"

namespace MutationDefinition

/-- The SQL function; without a source it is the table of the operation. -/
def functionName (m : MutationDefinition) : Option String :=
  match m.sqlSource, m.operation with
  | some source, _ => some source
  | none, .insert table | none, .update table | none, .delete table => if table.isEmpty then none else some table
  | none, .custom => none

/-- The type of a single argument `input`. -/
def inputTypeName (m : MutationDefinition) : Option String :=
  match m.arguments with
  | [arg] =>
    if arg.name = "input" then
      match arg.argType with
      | .input name => some name
      | _ => none
    else none
  | _ => none

def isUpdate (m : MutationDefinition) : Bool :=
  match m.operation with
  | .update _ => true
  | _ => false

end MutationDefinition

/-! ### Arguments -/

/-- The arguments from the client, and the names of those that are required and missing. -/
structure ClientArguments where
  values : List Json
  missing : List String

/-- Arguments made of the object under `input`. -/
def inputArguments (m : MutationDefinition) (vars : Option (List (String × Json)))
    (values : List (String × Json) → List Json) : ClientArguments :=
  match (vars.bind (Json.lookup "input")).bind Json.asObject? with
  | some input => ⟨values input, []⟩
  | none => ⟨[], if m.arguments.all ArgumentDefinition.nullable then [] else ["input"]⟩

/-- One value for each argument, with defaults. -/
def flatArguments (m : MutationDefinition) (vars : Option (List (String × Json))) : ClientArguments :=
  let given (arg : ArgumentDefinition) : Option Json := vars.bind (Json.lookup arg.name)
  ⟨m.arguments.map fun arg => (given arg).getD (arg.defaultValue.getD .null),
    (m.arguments.filter fun arg => (given arg).isNone && !arg.nullable && arg.defaultValue.isNone).map
      ArgumentDefinition.name⟩

/-- The positional arguments before the injected ones. An update gets the input object as it is; for other
operations it is taken apart in the order of the input type. -/
def clientArguments (inputTypes : List InputObjectDefinition) (m : MutationDefinition)
    (vars : Option (List (String × Json))) : ClientArguments :=
  let inputType := m.inputTypeName.bind fun name => inputTypes.find? fun t => t.name = name
  if m.isUpdate && m.inputTypeName.isSome then inputArguments m vars fun input => [.obj input]
  else match inputType with
    | some inputType => inputArguments m vars fun input =>
      inputType.fields.map fun field => (Json.lookup field input).getD .null
    | none => flatArguments m vars

/-- The values of the injected parameters, in their order. -/
def injectedArguments (user : SecurityContext) (params : List (String × InjectedParamSource)) :
    Except FraiseQLError (List Json) :=
  params.mapM fun param => resolveInjectValue param.1 param.2 user

/-- The arguments of the function call. -/
def mutationArguments (inputTypes : List InputObjectDefinition) (m : MutationDefinition) (mutationName : String)
    (vars : Option Json) (ctx : Option SecurityContext) : Except FraiseQLError (List Json) :=
  let client := clientArguments inputTypes m (vars.bind Json.asObject?)
  if !client.missing.isEmpty then
    .error (.validation ("Mutation '" ++ mutationName ++ "' is missing required argument(s): " ++
      String.intercalate ", " client.missing) none)
  else if m.injectParams.isEmpty then .ok client.values
  else do
    let user ← okOr ctx (.validation ("Mutation '" ++ mutationName ++
      "' requires inject params but no security context is available (unauthenticated request)") none)
    let injected ← injectedArguments user m.injectParams
    return client.values ++ injected

/-! ### Execution -/

section Mutations

variable (x : Executor) (lib : Library) (s : MutationSchema)

/-- The session variables of a mutation, set when any are configured, even if none has a value. -/
def setMutationSessionVariables (ctx : Option SecurityContext) : Dispatched Unit :=
  match ctx with
  | none => .lift (.ok ())
  | some user =>
    if x.schema.sessionVariables.mappings.isEmpty && !x.schema.sessionVariables.injectStartedAt then .lift (.ok ())
    else
      let pairs := resolveSessionVariables x.schema.sessionVariables user x.nowText
      .call (.read (.setSessionVariables pairs)) (x.adapter.setSessionVariables pairs)

def executeMutationQueryWithSecurity (mutationName : String) (vars : Option Json) (ctx : Option SecurityContext)
    (typeSelections : TypeSelections) : Dispatched Json := do
  let m ← Traced.lift (okOr (findMutation lib s.mutations mutationName) (.validation (unknownMutation mutationName
    (suggestSimilar mutationName (s.mutations.map fun m => lib.displayName m.name))) none))
  let function ← Traced.lift (okOr m.functionName
    (.validation ("Mutation '" ++ mutationName ++ "' has no sql_source configured") none))
  let arguments ← Traced.lift (mutationArguments s.inputTypes m mutationName vars ctx)
  setMutationSessionVariables x ctx
  let rows ← Traced.call (.callFunction function arguments) (s.executeFunctionCall function arguments)
  let row ← Traced.lift (okOr rows.head?
    (.validation ("Mutation '" ++ mutationName ++ "': function returned no rows") none))
  let result ← Traced.lift (s.respond m typeSelections row)
  return ResultProjector.wrapInDataEnvelope result mutationName

def executeMutationQuery (mutationName : String) (vars : Option Json) (typeSelections : TypeSelections) :
    Dispatched Json :=
  if s.supportsMutations then executeMutationQueryWithSecurity x lib s mutationName vars none typeSelections
  else .lift (.error (.validation ("Mutation '" ++ mutationName ++ "' cannot be executed: the configured " ++
    "database adapter does not support mutations. Use PostgresAdapter, MySqlAdapter, or SqlServerAdapter for " ++
    "mutation operations.") none))

end Mutations

end FraiseQL
