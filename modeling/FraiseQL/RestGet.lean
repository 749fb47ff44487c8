import FraiseQL.RestSelect

/-! GET requests of the REST transport (`rest/params.rs`, `rest/handler.rs`): a path and the pairs of a query string
become a matched query, which is executed directly. The parameters of a cursor go into variables. -/

namespace FraiseQL.Rest

open RustText

/-! ### Parameters -/

/-- `ExtractedParams`. -/
structure GetParams extends ExtractedParams where
  pathParams : List (String × Json)
  selection : Selection
  embeddingFilters : List (String × Json)

section Extraction

variable (lib : ParamLibrary) (config : GetConfig) (d : QueryDefinition) (argTypes : List (String × FieldType))
  (t : Option RestEntity)

def extractPathParams (pairs : List (String × String)) : Except FraiseQLError (List (String × Json)) :=
  pairs.mapM fun (name, raw) =>
    match argTypes.lookup name with
    | some argType => (coerceToType lib raw argType).map fun value => (name, value)
    | none => .ok (name, .str raw)

/-- The pagination of an endpoint. -/
def parsePagination (params : ClassifiedParams) : Except FraiseQLError PaginationParams :=
  if !d.returnsList then .ok .none
  else if d.relay then parseCursorPagination config.toRestConfig params
  else parseOffsetPagination config.toRestConfig params

/-- `RestParamExtractor::extract`. -/
def extractParams (pathPairs queryPairs : List (String × String)) : Selected GetParams := do
  let t' := t.map RestEntity.toRestType
  let pathParams ← Refusal.lift (extractPathParams lib argTypes pathPairs)
  let params ← Refusal.lift (queryPairs.foldlM (classifyParam lib d t') {})
  Refusal.lift (checkPagination d params)
  let selection ← parseSelectWithEmbeddings config t params.select
  let orderBy ← Refusal.lift (parseSort t' params.sort)
  let searchQuery ← Refusal.lift (checkSearch d t' params.search)
  let logical ← Refusal.lift (params.logical.mapM fun group =>
    parseLogicalGroup lib maxLogicalDepth group.2.toList ("_" ++ group.1))
  let filter ← Refusal.lift (parseFilter lib t' config.toRestConfig params.filter)
  let regular ← Refusal.lift (mergeWhere lib t' params.simple params.bracket filter)
  let whereClause := mergeWhereWithLogical regular logical
  let pagination ← Refusal.lift (parsePagination config d params)
  let total := pathParams.length + (whereClause.map countWhereFields).getD 0 + orderBy.toList.length +
    pagination.count + selection.count
  if maxVariablesCount < total then
    invalidSelect ("Too many parameters (" ++ toString total ++ "). Maximum allowed: " ++
      toString maxVariablesCount ++ ".")
  else return ⟨⟨whereClause, orderBy, pagination, searchQuery⟩, pathParams, selection,
    extractEmbeddingFilters queryPairs⟩

end Extraction

/-! ### Arguments -/

def buildFtsWhereClause (query : String) (t : Option RestEntity) : Option Json :=
  t.bind fun t =>
    match t.searchableFields.map fun f => Json.obj [(f.name, .obj [("websearch_query", .str query)])] with
    | [] => none
    | [clause] => some clause
    | clauses => some (.obj [("_or", .arr clauses)])

def insertSome (key : String) (value : Option Json) (entries : List (String × Json)) : List (String × Json) :=
  match value with
  | some value => insertEntry key value entries
  | none => entries

/-- The filters of a request together with its search. -/
def searchedWhere (regular fts : Option Json) : Option Json :=
  match regular, fts with
  | some regular, some fts => some (.obj [("_and", .arr [regular, fts])])
  | regular, fts => regular.or fts

/-- The order of a request; a search alone is ordered by relevance. -/
def searchedOrder (orderBy fts : Option Json) : Option Json :=
  orderBy.or (fts.map fun _ => .arr [.obj [("_relevance", .str "desc")]])

def pageArguments (pagination : PaginationParams) (arguments : List (String × Json)) : List (String × Json) :=
  match pagination with
  | .offset limit offset =>
    let limited := insertEntry "limit" (Json.ofNat limit) arguments
    if 0 < offset then insertEntry "offset" (Json.ofNat offset) limited else limited
  | _ => arguments

/-- The arguments that the path gives. -/
def pathArguments (params : GetParams) : List (String × Json) :=
  params.pathParams.foldl (fun arguments p => insertEntry p.1 p.2 arguments) []

/-- The arguments of the matched query. -/
def getArguments (params : GetParams) (fts : Option Json) : List (String × Json) :=
  pageArguments params.pagination (insertSome "orderBy" (searchedOrder params.orderBy fts)
    (insertSome "where" (searchedWhere params.whereClause fts) (pathArguments params)))

/-- The variables: the arguments, and the parameters of a cursor. -/
def getVariables (pagination : PaginationParams) (arguments : List (String × Json)) : List (String × Json) :=
  match pagination with
  | .cursor first after last before =>
    insertSome "before" (before.map .str) (insertSome "last" (last.map Json.ofNat)
      (insertSome "after" (after.map .str) (insertSome "first" (first.map Json.ofNat) arguments)))
  | _ => arguments

section InOrder

open MapEntries

theorem insertSome_inOrder (key : String) (value : Option Json) {entries : List (String × Json)}
    (h : InOrder entries) : InOrder (insertSome key value entries) := by
  cases value with
  | none => exact h
  | some value => exact insertEntry_inOrder key value h

theorem foldl_insertEntry_inOrder (pairs : List (String × Json)) {entries : List (String × Json)}
    (h : InOrder entries) : InOrder (pairs.foldl (fun entries p => insertEntry p.1 p.2 entries) entries) := by
  induction pairs generalizing entries with
  | nil => exact h
  | cons p pairs ih => exact ih (insertEntry_inOrder p.1 p.2 h)

theorem pageArguments_inOrder (pagination : PaginationParams) {arguments : List (String × Json)}
    (h : InOrder arguments) : InOrder (pageArguments pagination arguments) := by
  cases pagination with
  | offset limit offset =>
    simp only [pageArguments]
    split_ifs
    · exact insertEntry_inOrder _ _ (insertEntry_inOrder _ _ h)
    · exact insertEntry_inOrder _ _ h
  | cursor first after last before => exact h
  | none => exact h

theorem getArguments_inOrder (params : GetParams) (fts : Option Json) : InOrder (getArguments params fts) :=
  pageArguments_inOrder _ (insertSome_inOrder _ _ (insertSome_inOrder _ _
    (foldl_insertEntry_inOrder params.pathParams List.Pairwise.nil)))

end InOrder

/-! ### The handler -/

def RestError.forbidden : RestError := ⟨403, "FORBIDDEN", "Access denied", none⟩

/-- The query behind a route. -/
def RouteSource.queryName? : RouteSource → Option String
  | .query name => some name
  | .mutation _ => none

/-- `RestHandler`, with the schema as it reads it: the types, and the types of the arguments of a query. -/
structure RestHandler where
  executor : Executor
  names : Graphql.Library
  types : List RestEntity
  argTypes : String → List (String × FieldType)
  config : GetConfig
  table : RestRouteTable
  lib : ParamLibrary

structure ResolvedGetQuery where
  queryName : String
  queryMatch : QueryMatch
  queryVariables : List (String × Json)
  params : GetParams

namespace RestHandler

variable (h : RestHandler)

def findType (name : String) : Option RestEntity := h.types.find? fun t => t.name = name

/-- The role a query needs is one of the scopes of the user. -/
def mayRead (d : QueryDefinition) (ctx : Option SecurityContext) : Bool :=
  d.requiresRole.all fun role => ctx.any fun ctx => ctx.scopes.contains role

def getQueryMatch (d : QueryDefinition) (params : GetParams) : QueryMatch :=
  let fields := match params.selection.fieldSelection with
    | .all => []
    | .fields names => names
  let fts := params.searchQuery.bind fun query => buildFtsWhereClause query (h.findType d.returnType)
  .fromOperation d fields (getArguments params fts) (getArguments_inOrder params fts)

def resolveGetQuery (relativePath : String) (queryPairs : List (String × String)) (ctx : Option SecurityContext) :
    Except (Refusal RestError) ResolvedGetQuery := do
  let resolved ← Refusal.okOr (resolve h.table relativePath .get) (.notFound "Route not found")
  let queryName ← Refusal.okOr resolved.route.source.queryName? (.internal "GET route backed by mutation")
  let d ← Refusal.okOr (h.names.findQuery h.executor.schema.queries queryName)
    (.notFound ("Query not found: " ++ queryName))
  if mayRead d ctx then do
    let params ← Refusal.mapError RestError.ofError
      (extractParams h.lib h.config d (h.argTypes d.name) (h.findType d.returnType) resolved.pathParams queryPairs)
    let queryMatch := h.getQueryMatch d params
    return ⟨queryName, queryMatch, getVariables params.pagination queryMatch.arguments, params⟩
  else .error (.error .forbidden)

/-- `execute_query_direct` as the handlers call it; it does not read the variables. -/
def queryDirect (m : QueryMatch) (_variables : List (String × Json)) (ctx : Option SecurityContext) : Exec Json :=
  h.executor.executeQueryDirect m ctx

end RestHandler

end FraiseQL.Rest
