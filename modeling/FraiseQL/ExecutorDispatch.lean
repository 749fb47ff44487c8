import FraiseQL.Mutation
import FraiseQL.RustText

/-! The entry points of the executor (`executor/classify.rs`, `execution.rs`, `aggregate.rs`, `federation.rs`, and
`execute_with_security` of `executor/security.rs`): a query is classified by its first root field and routed to
the handler of its kind. Time limits are left out. The parser of the crate, the query validator, the pre-built
introspection data and the resolution of federation entities are parameters. -/

namespace FraiseQL

open Graphql

/-! ### Kinds of queries -/

inductive OperationKind where
  | query | mutation | subscription
  deriving DecidableEq

inductive QueryType where
  | regular
  | aggregate (queryName : String)
  | window (queryName : String)
  | federation (queryName : String)
  | introspectionSchema
  | introspectionType (typeName : String)
  | mutation (name : String) (typeSelections : TypeSelections)
  | nodeQuery (selections : List ParsedSelection)

/-- `s.replace("\\\"", "\"")`. -/
def unescapeQuotes : List Char → List Char
  | '\\' :: '"' :: cs => '"' :: unescapeQuotes cs
  | c :: cs => c :: unescapeQuotes cs
  | [] => []

def extractRootStringArg (parsed : ParsedQuery) (argName : String) : Option String :=
  (parsed.selections.head?.bind fun root => root.arguments.find? fun arg => arg.name = argName).bind fun arg =>
    match arg.valueJson.toList with
    | '"' :: rest =>
      if rest.getLast? = some '"' then some (String.ofList (unescapeQuotes rest.dropLast)) else none
    | _ => none

/-- The fields under the root `node`, with those of inline fragments lifted. -/
def nodeSelections (parsed : ParsedQuery) : List ParsedSelection :=
  (parsed.selections.head?.map fun root => root.nestedFields.flatMap fun sel =>
    if ['.', '.', '.'].isPrefixOf sel.name.toList then sel.nestedFields else [sel]).getD []

/-- `map.entry(key).or_default().extend(fields)`. -/
def extendEntry (key : String) (fields : List String) : TypeSelections → TypeSelections
  | [] => [(key, fields)]
  | (k, known) :: map => if k = key then (k, known ++ fields) :: map else (k, known) :: extendEntry key fields map

def mutationSelections (parsed : ParsedQuery) : TypeSelections :=
  ((parsed.selections.head?.map ParsedSelection.nestedFields).getD []).foldl (fun map sel =>
    match stripStart "...on ".toList sel.name with
    | some typeName => extendEntry typeName (sel.nestedFields.map ParsedSelection.responseKey) map
    | none => extendEntry "" [sel.responseKey] map) []

/-- The kind of a parsed query; only its first root is looked at. -/
def classifyParsed (operation : OperationKind) (parsed : ParsedQuery) : QueryType :=
  let root := parsed.rootField
  if root = "__schema" then .introspectionSchema
  else if root = "__type" then .introspectionType ((extractRootStringArg parsed "name").getD "")
  else if root = "_service" ∨ root = "_entities" then .federation root
  else if operation = .query ∧ root = "node" then .nodeQuery (nodeSelections parsed)
  else if operation = .mutation then .mutation root (mutationSelections parsed)
  else if "_aggregate".toList.isSuffixOf root.toList then .aggregate root
  else if "_window".toList.isSuffixOf root.toList then .window root
  else .regular

/-! ### Node identifiers -/

def extractInlineNodeId (query : String) : Option String :=
  -- the second search starts at the text `node(` itself, which has no `id:` in it
  ((RustText.splitOnce "node(".toList query.toList).bind fun (_, region) =>
    RustText.splitOnce "id:".toList region).bind fun (_, rest) =>
    match RustText.trimStart rest with
    | quote :: inner =>
      if (quote = '"' ∨ quote = '\'') ∧ inner.contains quote then
        some (String.ofList (inner.takeWhile (· ≠ quote)))
      else none
    | [] => none

/-- `s.split_once(':')`. -/
def splitOnce (s : String) : Option (String × String) :=
  if s.toList.contains ':' then
    some (String.ofList (s.toList.takeWhile (· ≠ ':')), String.ofList ((s.toList.dropWhile (· ≠ ':')).drop 1))
  else none

def decodeNodeId (base64 : Base64) (id : String) : Option (String × String) :=
  ((base64.decode id).bind splitOnce).bind fun parts =>
    if parts.1.isEmpty ∨ parts.2.isEmpty then none else some parts

/-! ### The executor -/

/-- `IntrospectionResponses`, without the envelopes. -/
structure Introspection where
  schema : Json
  types : List (String × Json)

/-- What `_service` and `_entities` return. -/
structure Federation where
  service : Except FraiseQLError Json
  entities : String → Option Json → Except FraiseQLError Json

/-- `Executor`, with what the special roots read. -/
structure Dispatcher where
  base : Executor
  lib : Library
  operationKind : String → OperationKind
  text : Aggregate.TextLibrary
  factTables : List (String × FactTableMetadata)
  executeParameterizedAggregate : String → List Json → Except FraiseQLError (List (List (String × Json)))
  mutations : MutationSchema
  introspection : Introspection
  federation : Option Federation
  queryValidation : Option (String → Except String Unit)
  queryHash : String → UInt64
  parseCache : UInt64 → Option (QueryType × Option ParsedQuery)

namespace Dispatcher

variable (x : Dispatcher)

def classifyQueryWithParse (query : String) : Except FraiseQLError (QueryType × Option ParsedQuery) := do
  let parsed ← (parseQuery x.lib query).mapError fun e => .parse e "query"
  match classifyParsed (x.operationKind query) parsed with
  | .regular => return (.regular, some parsed)
  | kind => return (kind, none)

def classifyQuery (query : String) : Except FraiseQLError QueryType :=
  (x.classifyQueryWithParse query).map Prod.fst

/-! ### Analytic queries -/

/-- The fact table that a root field is about. -/
def factTable (kind queryName : String) : Except FraiseQLError FactTableMetadata := do
  let tableName ← okOr (stripSuffix ("_" ++ kind).toList queryName.toList)
    (.validation ("Invalid " ++ kind ++ " query name: " ++ queryName) none)
  let factTableName := "tf_" ++ String.ofList tableName
  let unknown := "Fact table '" ++ factTableName ++ "' not found in schema"
  let message := match suggestSimilar factTableName (x.factTables.map Prod.fst) with
    | [s] => unknown ++ ". Did you mean '" ++ s ++ "'?"
    | _ => unknown
  okOr (x.factTables.lookup factTableName) (.validation message (some ("fact_tables." ++ factTableName)))

/-- `AggregationProjector::project` and `WindowProjector::project`; a row is the list of its entries in key
order. -/
def projectRows (rows : List (List (String × Json))) : Json := .arr (rows.map .obj)

def executeAggregateQuery (query : Json) (queryName : String) (metadata : FactTableMetadata) : Dispatched Json := do
  let request ← Traced.lift (Aggregate.QueryParser.parse x.text metadata
    (filterColumnsToNativeMap metadata.denormalizedFilters) query)
  let plan ← Traced.lift (Aggregate.Planner.plan metadata request)
  let statement ← Traced.lift
    (Aggregate.SqlGenerator.generateParameterized x.base.adapter.databaseType x.text plan)
  let rows ← Traced.call (.aggregate plan statement)
    (x.executeParameterizedAggregate statement.sql statement.params)
  return ResultProjector.wrapInDataEnvelope (projectRows rows) queryName

def executeAggregateDispatch (queryName : String) (vars : Option Json) : Dispatched Json := do
  let metadata ← Traced.lift (x.factTable "aggregate" queryName)
  x.executeAggregateQuery (vars.getD (.obj [])) queryName metadata

def executeWindowQuery (query : Json) (queryName : String) (metadata : FactTableMetadata) : Dispatched Json := do
  let request ← Traced.lift (Window.QueryParser.parse query)
  let plan ← Traced.lift (Window.Planner.plan metadata request)
  let statement ← Traced.lift (Window.SqlGenerator.generate x.base.adapter.databaseType plan)
  let rows ← Traced.call (.window plan statement)
    (x.executeParameterizedAggregate statement.rawSql statement.parameters)
  return ResultProjector.wrapInDataEnvelope (projectRows rows) queryName

def executeWindowDispatch (queryName : String) (vars : Option Json) : Dispatched Json := do
  let metadata ← Traced.lift (x.factTable "window" queryName)
  x.executeWindowQuery (vars.getD (.obj [])) queryName metadata

/-! ### Node queries -/

/-- `node_type_index`: the source of the first query that returns the type and has one. -/
def nodeTypeIndex (typeName : String) : Option String :=
  x.base.schema.queries.findSome? fun q => if q.returnType = typeName then q.sqlSource else none

/-- The identifier of a node query: that of the variables, else the literal in the text. -/
def rawNodeId (query : String) (vars : Option Json) : Option String :=
  (((vars.bind Json.asObject?).bind (Json.lookup "id")).bind Json.asStr?).or (extractInlineNodeId query)

def nodeHint (typeName : String) (selections : List ParsedSelection) : Option SqlProjectionHint :=
  let fields := buildTypedProjectionFields x.base.schema typeName 0 (ParsedSelection.eraseAll selections)
  if selections.isEmpty then none
  else some ⟨x.base.adapter.databaseType, generateTypedProjectionSql x.base.charCase fields,
    computeProjectionReduction fields.length⟩

/-- What a node query asks the adapter for. -/
def nodeRequest (query : String) (vars : Option Json) (selections : List ParsedSelection) :
    Except FraiseQLError ProjectionRequest := do
  let rawId ← okOr (rawNodeId query vars)
    (.validation "node query: missing or unresolvable 'id' argument" (some "node.id"))
  let (typeName, uuid) ← okOr (decodeNodeId x.base.base64 rawId)
    (.validation ("node query: invalid node ID '" ++ rawId ++ "'") (some "node.id"))
  let sqlSource ← okOr (x.nodeTypeIndex typeName)
    (.validation ("node query: no registered SQL view for type '" ++ typeName ++ "'") (some "node.id"))
  return ⟨sqlSource, x.nodeHint typeName selections, some (.field ["id"] .eq (.str uuid)), some 1, none, none⟩

def executeNodeQuery (query : String) (vars : Option Json) (selections : List ParsedSelection) : Dispatched Json := do
  let request ← Traced.lift (x.nodeRequest query vars selections)
  let rows ← ofRead (x.base.executeWithProjection request)
  return ResultProjector.wrapInDataEnvelope (rows.headD .null) "node"

/-! ### Federation and introspection -/

/-- `execute_federation_query`, where the feature is built in. -/
def executeFederationQuery (queryName query : String) (vars : Option Json) : Dispatched Json :=
  match x.federation with
  | none => .lift (.error (.validation "Federation is not enabled in this build" none))
  | some federation =>
    let result := match queryName with
      | "_service" => federation.service
      | "_entities" => federation.entities query vars
      | _ => .error (.validation ("Unknown federation query: " ++ queryName) none)
    .lift (result.map fun value => ResultProjector.wrapInDataEnvelope value queryName)

def schemaResponse : Json := ResultProjector.wrapInDataEnvelope x.introspection.schema "__schema"

def getTypeResponse (typeName : String) : Json :=
  ResultProjector.wrapInDataEnvelope ((x.introspection.types.lookup typeName).getD .null) "__type"

/-! ### The entry points -/

/-- The routing of both entry points, which differ in how they run regular queries and mutations. -/
def route (query : String) (vars : Option Json) (regular : Dispatched Json)
    (mutate : String → TypeSelections → Dispatched Json) : QueryType → Dispatched Json
  | .regular => regular
  | .aggregate queryName => x.executeAggregateDispatch queryName vars
  | .window queryName => x.executeWindowDispatch queryName vars
  | .federation queryName => x.executeFederationQuery queryName query vars
  | .introspectionSchema => .lift (.ok x.schemaResponse)
  | .introspectionType typeName => .lift (.ok (x.getTypeResponse typeName))
  | .mutation name typeSelections => mutate name typeSelections
  | .nodeQuery selections => x.executeNodeQuery query vars selections

/-- The executor with the matcher of the crate. -/
def matched : Executor := Graphql.executor x.lib x.base

def mergeIntoDataMap (fields : List (String × Json)) : Json :=
  .obj (fields.foldl (fun map field => insertEntry field.1 field.2 map) [])

/-- A regular query of `execute_internal`. -/
def executeRegular (query : String) (vars : Option Json) (maybeParsed : Option ParsedQuery) : Exec Json :=
  match maybeParsed with
  | none => .lift (.error (.internal "classifier returned Regular without a parsed query — this is a bug"))
  | some parsed =>
    if 1 < parsed.selections.length then do
      let fields ← executeParallel x.lib x.base parsed vars
      return .obj [("data", mergeIntoDataMap fields)]
    else x.matched.executeRegularQuery query vars

/-- The classification of `execute_internal`: an entry of the parse cache stands for a new one. -/
def cachedClassification (query : String) : Except FraiseQLError (QueryType × Option ParsedQuery) :=
  match x.parseCache (x.queryHash query) with
  | some pair => .ok pair
  | none => x.classifyQueryWithParse query

def executeInternal (query : String) (vars : Option Json) : Dispatched Json := do
  let (kind, maybeParsed) ← Traced.lift (x.cachedClassification query)
  x.route query vars (ofRead (x.executeRegular query vars maybeParsed))
    (fun name typeSelections => executeMutationQuery x.base x.lib x.mutations name vars typeSelections) kind

/-- The query validator, where one is configured. -/
def validateQuery (query : String) : Except FraiseQLError Unit :=
  match x.queryValidation with
  | some validate => (validate query).mapError fun e => .validation e (some "query")
  | none => .ok ()

def execute (query : String) (vars : Option Json) : Dispatched Json := do
  Traced.lift (x.validateQuery query)
  x.executeInternal query vars

def executeWithSecurity (query : String) (vars : Option Json) (ctx : SecurityContext) : Dispatched Json := do
  let kind ← Traced.lift (x.classifyQuery query)
  x.route query vars (ofRead (x.matched.executeRegularQueryWithSecurity query vars ctx))
    (fun name typeSelections =>
      executeMutationQueryWithSecurity x.base x.lib x.mutations name vars (some ctx) typeSelections) kind

end Dispatcher

/-- An executor whose schema has nothing but queries. -/
def Dispatcher.ofQueries (base : Executor) (lib : Library) : Dispatcher where
  base := base
  lib := lib
  operationKind := fun _ => .query
  text := ⟨Char.isUpper, Char.isLower, String.toLower, String.toUpper, fun names => names.toString⟩
  factTables := []
  executeParameterizedAggregate := fun _ _ => .ok []
  mutations := ⟨[], [], true, fun _ _ => .ok [], fun _ _ row => .ok row⟩
  introspection := ⟨.null, []⟩
  federation := none
  queryValidation := none
  queryHash := fun _ => 0
  parseCache := fun _ => none

end FraiseQL
