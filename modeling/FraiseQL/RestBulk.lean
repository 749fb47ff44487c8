import FraiseQL.RestParams
import FraiseQL.RestWrite

/-! Bulk writes by filter (`rest/bulk.rs`, and `execute_bulk_by_filter` of `executor/query.rs`): a PATCH or DELETE of
a collection reads the rows that the parameters select, and then runs the mutation of the resource once, with the
body, whatever rows came back. -/

namespace FraiseQL

/-! ### Execution -/

structure BulkResult where
  affectedRows : Nat
  entities : List Json

/-- The number of rows in a response; one when it holds no list. -/
def filteredCount (result : Json) : Nat :=
  match ((result.get? "data").bind Json.asObject?).bind List.head? with
  | some (_, .arr rows) => rows.length
  | _ => 1

def Dispatcher.executeBulkByFilter (x : Dispatcher) (m : QueryMatch) (mutationName : String) (body : Option Json)
    (_idField : String) (_maxAffected : Nat) (ctx : Option SecurityContext) : Dispatched BulkResult := do
  let filterResult ← ofRead (x.base.executeQueryDirect m ctx)
  let result ← x.executeMutationWithSecurity mutationName (body.getD (.obj [])) ctx
  return ⟨filteredCount filterResult, [result]⟩

namespace Rest

/-! ### Errors -/

def errorText : FraiseQLError → String
  | .validation message _ => "Validation error: " ++ message
  | .internal message => "Internal error: " ++ message
  | .parse message location => "Parse error at " ++ location ++ ": " ++ message
  | .authorization message _ _ => "Authorization error: " ++ message
  | .database message _ => "Database error: " ++ message

/-- `RestError::from`. -/
def RestError.ofError (e : FraiseQLError) : RestError :=
  match e with
  | .validation _ _ => .badRequest (errorText e)
  | .authorization _ _ _ => ⟨403, "FORBIDDEN", "Access denied", none⟩
  | _ => .internal (errorText e)

/-! ### The handler -/

/-- `PreferHeader`, as bulk operations read it. -/
structure PreferHeader where
  returnRepresentation : Bool
  returnMinimal : Bool
  txRollback : Bool
  maxAffected : Option Nat

inductive BulkOperation where
  | update | delete

namespace BulkOperation

def name : BulkOperation → String
  | .update => "update"
  | .delete => "delete"

def missingFilterMsg : BulkOperation → String
  | .update => "Bulk update requires at least one filter parameter"
  | .delete => "Bulk delete requires at least one filter parameter"

def matchesOperation : BulkOperation → MutationOperation → Bool
  | .update, .update _ => true
  | .delete, .delete _ => true
  | _, _ => false

end BulkOperation

/-- A PATCH or DELETE of a collection; the body of a DELETE is empty. -/
structure BulkRequest where
  operation : BulkOperation
  relativePath : String
  body : Json
  queryParams : List (String × String)
  prefer : PreferHeader
  requestId : String

/-- `BulkHandler`, with `serde_json::from_str` and the other parsers of parameters. -/
structure BulkHandler where
  executor : Dispatcher
  types : List RestType
  config : RestConfig
  table : RestRouteTable
  lib : ParamLibrary

def hasFilterParams (queryParams : List (String × String)) : Bool :=
  queryParams.any fun pair =>
    pair.1 = "filter" || '[' ∈ pair.1.toList ||
      pair.1 ∉ ["select", "sort", "limit", "offset", "first", "after", "last", "before", "filter"]

def extractEntityFromResult (result : Json) : Option Json := do
  let data ← result.get? "data"
  let entries ← data.asObject?
  let (_, mutationResult) ← entries.head?
  let clean (entity : Json) : Json := match entity with
    | .obj fields => .obj (fields.filter fun field => field.1 ≠ "__typename")
    | entity => entity
  match mutationResult.get? "entity" with
  | some .null => none
  | some entity => some (clean entity)
  | none =>
    match clean mutationResult with
    | .obj (field :: fields) => some (.obj (field :: fields))
    | _ => none

/-- A bulk operation that can be executed. -/
structure BulkPlan where
  mutationName : String
  idField : String
  queryMatch : QueryMatch
  maxAffected : Nat

namespace BulkHandler

variable (h : BulkHandler)

def resolveBulkMutation (relativePath : String) (operation : BulkOperation) :
    Except RestError (RestResource × String × String) := do
  let resourceName := String.ofList ((pathSegments relativePath).headD [])
  let resource ← match h.table.find? fun r => r.name = resourceName with
    | some resource => .ok resource
    | none => .error (.notFound ("Resource '" ++ resourceName ++ "' not found"))
  let mutation := resource.routes.findSome? fun route =>
    match route.source with
    | .mutation name =>
      (findMutation h.executor.lib h.executor.mutations.mutations name).bind fun m =>
        if operation.matchesOperation m.operation then some name else none
    | .query _ => none
  let noMutation := RestError.badRequest ("No " ++ operation.name ++ " mutation found for resource '" ++
    resourceName ++ "'")
  let mutationName ← match mutation with
    | some name => .ok name
    | none => .error noMutation
  let listQuery := resource.routes.findSome? fun route =>
    match route.source with
    | .query name => if route.path = "/" ++ resourceName then some name else none
    | .mutation _ => none
  match listQuery with
  | some name => return (resource, mutationName, name)
  | none => .error (.internal ("No list query found for resource '" ++ resourceName ++ "'"))

/-- The fields that a filter query selects. -/
def idFields (t : Option RestType) : List String :=
  match (((t.map RestType.fields).getD []).filter RestField.isPrimaryKey).map RestField.outputName with
  | [] => ["id"]
  | fields => fields

def buildFilterQueryMatch (queryName : String) (queryParams : List (String × String)) (typeName : String) :
    Except RestError QueryMatch := do
  let d ← match h.executor.lib.findQuery h.executor.base.schema.queries queryName with
    | some d => .ok d
    | none => .error (.internal ("Query '" ++ queryName ++ "' not found"))
  let t := h.types.find? fun t => t.name = typeName
  let params ← (extract h.lib h.config d t queryParams).mapError RestError.ofError
  match params.whereClause with
  | some whereClause =>
    return .fromOperation d (idFields t) [("where", whereClause)] (List.pairwise_singleton _ _)
  | none => return .fromOperation d (idFields t) [] QueryMatch.sorted_nil

/-- What is decided before anything is executed. -/
def plan (request : BulkRequest) : Except RestError BulkPlan :=
  if !hasFilterParams request.queryParams then .error (.badRequest request.operation.missingFilterMsg)
  else do
    let (resource, mutationName, listQueryName) ← h.resolveBulkMutation request.relativePath request.operation
    let queryMatch ← h.buildFilterQueryMatch listQueryName request.queryParams resource.typeName
    return ⟨mutationName, resource.idArg.getD "id", queryMatch,
      request.prefer.maxAffected.getD h.config.maxBulkAffected⟩

def buildBulkResponse (result : BulkResult) (prefer : PreferHeader) (requestId : String) : RestResponse :=
  let headers := insertHeader "x-rows-affected" (toString result.affectedRows) (insertHeader "x-request-id" requestId [])
  let applied := if prefer.txRollback then ["tx=rollback"] else []
  let withApplied (prefs : List String) : Headers :=
    if prefs.isEmpty then headers else insertHeader "preference-applied" (String.intercalate ", " prefs) headers
  if prefer.returnRepresentation then
    let entity (value : Json) : Option Json := match value with
      | .str s => (h.lib.fromStr s).toOption.bind extractEntityFromResult
      | value => extractEntityFromResult value
    ⟨200, withApplied (applied ++ ["return=representation"]), some (.arr (result.entities.filterMap entity))⟩
  else if prefer.returnMinimal then ⟨204, withApplied (applied ++ ["return=minimal"]), none⟩
  else if result.affectedRows = 0 then ⟨204, withApplied applied, none⟩
  else ⟨200, withApplied applied, none⟩

def handleBulkFilterOperation (request : BulkRequest) (ctx : Option SecurityContext) :
    Traced RestError DispatchCall RestResponse := do
  let plan ← Traced.lift (h.plan request)
  let result ← (h.executor.executeBulkByFilter plan.queryMatch plan.mutationName (some request.body) plan.idField
    plan.maxAffected ctx).mapError RestError.ofError
  return h.buildBulkResponse result request.prefer request.requestId

end BulkHandler

end Rest

end FraiseQL
