import FraiseQL.Projection
import FraiseQL.Traced

/-! The read paths of the query executor (`executor/query.rs`). A run is a traced computation: what it returns
and the calls it makes to the database adapter and the response cache. The matcher, the policy, the adapter
and the decoders of third-party crates are parameters. -/

namespace FraiseQL

/-! ### The adapter -/

/-- A call of `execute_with_projection_arc`. -/
structure ProjectionRequest where
  view : String
  projection : Option SqlProjectionHint
  whereClause : Option WhereClause
  limit : Option Nat
  offset : Option Nat
  orderBy : Option (List OrderByClause)

/-- A call of `execute_where_query_arc`, without page and order. -/
structure WhereRequest where
  view : String
  whereClause : Option WhereClause

inductive CursorValue where
  | int64 (n : Int)
  | uuid (s : String)

/-- A call of `execute_relay_page`. -/
structure RelayPageRequest where
  view : String
  cursorColumn : String
  after : Option CursorValue
  before : Option CursorValue
  limit : Nat
  forward : Bool
  whereClause : Option WhereClause
  orderBy : Option (List OrderByClause)
  includeTotalCount : Bool

structure RelayPageResult where
  rows : List Json
  totalCount : Option Nat

/-- `DatabaseAdapter`. -/
structure Adapter where
  databaseType : DatabaseType
  setSessionVariables : List (String × String) → Except FraiseQLError Unit
  executeWithProjection : ProjectionRequest → Except FraiseQLError (List Json)
  executeWhereQuery : WhereRequest → Except FraiseQLError (List Json)

/-- What the executor calls out for. -/
inductive Call where
  | setSessionVariables (pairs : List (String × String))
  | executeWithProjection (request : ProjectionRequest)
  | executeWhereQuery (request : WhereRequest)
  | executeRelayPage (request : RelayPageRequest)
  | putResponse (key : UInt64 × UInt64) (response : Json) (views : List String)

abbrev Exec := Traced FraiseQLError Call

/-! ### Response keys -/

/-- What is fed to a hasher: strings, and the discriminant of an option. -/
inductive HashToken where
  | str (s : String)
  | present (b : Bool)

/-- The tokens of `compute_response_cache_key`. -/
def responseKeyTokens (m : QueryMatch) : List HashToken :=
  .str m.queryDef.name :: m.fields.map .str ++
    m.arguments.flatMap fun (key, value) => [.str key, .str value.text]

/-- The tokens of `hash_security_context`. -/
def securityTokens (ctx : SecurityContext) : List HashToken :=
  let tenant : List HashToken := match ctx.tenantId with
    | some tenant => [.present true, .str tenant]
    | none => [.present false]
  let attributes := ctx.attributes.mergeSort fun a b => decide (a.1 ≤ b.1)
  .str ctx.userId :: (ctx.roles.mergeSort fun a b => decide (a ≤ b)).map .str ++ tenant ++
    (ctx.scopes.mergeSort fun a b => decide (a ≤ b)).map .str ++
    attributes.flatMap fun (key, value) => [.str key, .str value.text]

/-- `ResponseCache`, as one run sees it. -/
structure ResponseCache where
  enabled : Bool
  get : UInt64 × UInt64 → Option Json

/-! ### The executor -/

/-- `BASE64`; decoding includes the check for UTF-8. -/
structure Base64 where
  encode : String → String
  decode : String → Option String

structure Executor where
  schema : CompiledSchema
  matcher : String → Option Json → Except FraiseQLError QueryMatch
  defaultStrategy : JsonbStrategy
  rlsPolicy : Option RlsPolicy
  responseCache : Option ResponseCache
  adapter : Adapter
  relay : Option (RelayPageRequest → Except FraiseQLError RelayPageResult)
  base64 : Base64
  parseJson : String → Option Json
  charCase : WhereFilter.CharCase
  hasher : List HashToken → UInt64
  now : Int
  nowText : String

def parseDigits (cs : List Char) : Option Nat :=
  if cs ≠ [] ∧ cs.all Char.isDigit then some (Nat.ofDigitChars 10 cs 0) else none

/-- `str::parse::<i64>`. -/
def parseI64 (s : String) : Option Int :=
  let value : Option Int := match s.toList with
    | '-' :: cs => (parseDigits cs).map fun n => -(n : Int)
    | '+' :: cs => (parseDigits cs).map fun n => (n : Int)
    | cs => (parseDigits cs).map fun n => (n : Int)
  value.bind fun n => if -2 ^ 63 ≤ n ∧ n < 2 ^ 63 then some n else none

/-- The error shown for a query that needs a role. -/
def notFound (d : QueryDefinition) : FraiseQLError :=
  .validation ("Query '" ++ d.name ++ "' not found in schema") none

/-- Whether the user has the role a query needs. -/
def hasRequiredRole (d : QueryDefinition) (ctx : SecurityContext) : Bool :=
  d.requiresRole.all fun role => ctx.roles.contains role

def noSqlSource : FraiseQLError := .validation "Query has no SQL source" none

def calledWithoutContext (d : QueryDefinition) : FraiseQLError :=
  .validation ("Query '" ++ d.name ++ "' has inject params but was called without a security context") none

/-- `Option::ok_or_else`. -/
def okOr {α : Type} (value : Option α) (e : FraiseQLError) : Except FraiseQLError α :=
  match value with
  | some a => .ok a
  | none => .error e

namespace Executor

variable (x : Executor)

/-- A call of `execute_with_projection_arc`. -/
def executeWithProjection (request : ProjectionRequest) : Exec (List Json) :=
  .call (.executeWithProjection request) (x.adapter.executeWithProjection request)

/-- The session variables of a request, when there are any. -/
def injectSessionVariables (ctx : SecurityContext) : Exec Unit :=
  let pairs := resolveSessionVariables x.schema.sessionVariables ctx x.nowText
  if pairs.isEmpty then .lift (.ok ())
  else .call (.setSessionVariables pairs) (x.adapter.setSessionVariables pairs)

/-! ### Relay -/

/-- `decode_edge_cursor` and `decode_uuid_cursor`. -/
def decodeCursor (cursorType : CursorType) (cursor : String) : Option CursorValue :=
  match cursorType with
  | .int64 => ((x.base64.decode cursor).bind parseI64).map .int64
  | .uuid => (x.base64.decode cursor).map .uuid

/-- The cursor of an argument; the message ends before the cursor's text. -/
def cursorArg (cursorType : CursorType) (argument : String) (value : Option Json) :
    Except FraiseQLError (Option CursorValue) :=
  match value.bind Json.asStr? with
  | none => .ok none
  | some cursor => (okOr (x.decodeCursor cursorType cursor)
      (.validation ("invalid relay cursor for `" ++ argument ++ "`: ") (some argument))).map some

/-- `first` or `last`; a larger number than a `u32` is the largest one. -/
def pageSizeArg (value : Option Json) : Option Nat :=
  (value.bind Json.asU64?).map fun n => min n (2 ^ 32 - 1)

/-- The direction of a page and its size. -/
def direction (first last : Option Nat) : Bool × Nat :=
  if last.isSome && first.isNone then (false, last.getD 20) else (true, first.getD 20)

mutual

def selectionsContainField (fieldName : String) : List FieldSelection → Bool
  | [] => false
  | sel :: sels => selectionContainsField fieldName sel || selectionsContainField fieldName sels

def selectionContainsField (fieldName : String) : FieldSelection → Bool
  | .mk name _ _ nestedFields => decide (name = fieldName) ||
      (['.', '.', '.'].isPrefixOf name.toList && selectionsContainField fieldName nestedFields)

end

/-- The cursor of a row, from the cursor column inside its data. -/
def rowCursor (d : QueryDefinition) (cursorColumn : String) (row : Json) : Except FraiseQLError String :=
  let column := row.get? cursorColumn
  let missing (kind : String) : FraiseQLError := .validation ("Relay query '" ++ d.name ++
    "': cursor column '" ++ cursorColumn ++ "' not found or not " ++ kind ++
    " in result JSONB. Ensure the view exposes this column inside the `data` object.") none
  match d.relayCursorType with
  | .int64 => (okOr (column.bind Json.asI64?) (missing "an integer")).map fun n => x.base64.encode (toString n)
  | .uuid => (okOr (column.bind Json.asStr?) (missing "a string")).map x.base64.encode

def edges (d : QueryDefinition) (cursorColumn : String) :
    List Json → Except FraiseQLError (List (String × Json))
  | [] => .ok []
  | row :: rows => do
    let cursor ← x.rowCursor d cursorColumn row
    let rest ← edges d cursorColumn rows
    return (cursor, .obj [("cursor", .str cursor), ("node", row)]) :: rest

def optionalText : Option String → Json
  | some s => .str s
  | none => .null

def connection (edges : List (String × Json)) (hasNextPage hasPreviousPage : Bool)
    (totalCount : Option (Option Nat)) : Json :=
  .obj ([("edges", .arr (edges.map Prod.snd)),
    ("pageInfo", .obj [("endCursor", optionalText ((edges.map Prod.fst).getLast?)),
      ("hasNextPage", .bool hasNextPage), ("hasPreviousPage", .bool hasPreviousPage),
      ("startCursor", optionalText ((edges.map Prod.fst).head?))])] ++
    match totalCount with
    | some (some n) => [("totalCount", Json.ofNat n)]
    | some none => [("totalCount", .null)]
    | none => [])

/-- The security conditions of a path that may run without a user. -/
def securityWhere (d : QueryDefinition) (rls : Option WhereClause) (ctx : Option SecurityContext)
    (missing : FraiseQLError) : Except FraiseQLError (Option WhereClause) :=
  if d.injectParams.isEmpty then .ok rls
  else okOr ctx missing >>= injectedWhere d rls

/-- An argument that the query may not have. -/
def whenEnabled (enabled : Bool) (value : Option Json) : Option Json := if enabled then value else none

/-- What `execute_relay_query` asks which adapter for, and the size of the page. -/
structure RelayPlan where
  request : RelayPageRequest
  pageSize : Nat
  relay : RelayPageRequest → Except FraiseQLError RelayPageResult

def relayPlan (m : QueryMatch) (vars : Option Json) (ctx : Option SecurityContext) :
    Except FraiseQLError RelayPlan := do
  let d := m.queryDef
  if !d.injectParams.isEmpty && ctx.isNone then .error (calledWithoutContext d)
  else
    let sqlSource ← okOr d.sqlSource
      (.validation ("Relay query '" ++ d.name ++ "' has no sql_source configured") none)
    let cursorColumn ← okOr d.relayCursorColumn
      (.validation ("Relay query '" ++ d.name ++ "' has no relay_cursor_column derived") none)
    let relay ← okOr x.relay (.validation ("Relay pagination is not supported by the " ++
      x.adapter.databaseType.asStr ++ " adapter. Use a relay-capable adapter (e.g. PostgreSQL) and construct " ++
      "the executor with `Executor::new_with_relay`.") none)
    let rls ← evaluateRls x.rlsPolicy ctx d.name
    let secured ← securityWhere d rls ctx (calledWithoutContext d)
    let arg (name : String) : Option Json := vars.bind fun v => v.get? name
    let after ← x.cursorArg d.relayCursorType "after" (arg "after")
    let before ← x.cursorArg d.relayCursorType "before" (arg "before")
    let (forward, pageSize) := direction (pageSizeArg (arg "first")) (pageSizeArg (arg "last"))
    let user ← userWhere x.charCase d (arg "where")
    let orderBy ← orderByArg x.charCase x.schema d (whenEnabled d.autoParams.hasOrderBy (arg "orderBy"))
    let includeTotalCount := (m.selections.find? fun sel => sel.name = d.name).any fun sel =>
      selectionsContainField "totalCount" sel.nestedFields
    -- the limit is a `u32`
    return ⟨⟨sqlSource, cursorColumn, after, before, (pageSize + 1) % 2 ^ 32, forward,
      composeWhere secured user, orderBy, includeTotalCount⟩, pageSize, relay⟩

/-- The response to a page of rows. -/
def relayResponse (d : QueryDefinition) (request : RelayPageRequest) (pageSize : Nat)
    (result : RelayPageResult) : Except FraiseQLError Json := do
  let hasExtra := decide (pageSize < result.rows.length)
  let rows := result.rows.take pageSize
  let (hasNextPage, hasPreviousPage) :=
    if request.forward then (hasExtra, request.after.isSome) else (request.before.isSome, hasExtra)
  let edges ← x.edges d request.cursorColumn rows
  return ResultProjector.wrapInDataEnvelope (connection edges hasNextPage hasPreviousPage
    (if request.includeTotalCount then some result.totalCount else none)) d.name

def executeRelayQuery (m : QueryMatch) (vars : Option Json) (ctx : Option SecurityContext) : Exec Json := do
  let plan ← Traced.lift (x.relayPlan m vars ctx)
  let result ← Traced.call (.executeRelayPage plan.request) (plan.relay plan.request)
  x.relayResponse m.queryDef plan.request plan.pageSize result

/-! ### Regular queries -/

/-- What an authenticated query asks the adapter for. -/
def securedRequest (m : QueryMatch) (ctx : SecurityContext) : Except FraiseQLError ProjectionRequest := do
  let d := m.queryDef
  let rls ← evaluateRls x.rlsPolicy (some ctx) d.name
  let sqlSource ← okOr d.sqlSource noSqlSource
  let secured ← injectedWhere d rls ctx
  let user ← userWhere x.charCase d (m.arguments.lookup "where")
  let whereClause := combineExplicitArgWhere (composeWhere secured user) d.arguments m.arguments d.nativeColumns
  let limit := pageArg (whenEnabled d.autoParams.hasLimit (m.arguments.lookup "limit"))
  let offset := pageArg (whenEnabled d.autoParams.hasOffset (m.arguments.lookup "offset"))
  let orderBy ← orderByArg x.charCase x.schema d
    (whenEnabled d.autoParams.hasOrderBy (m.arguments.lookup "orderBy"))
  return ⟨sqlSource, projectionHint x.charCase x.schema x.adapter.databaseType x.defaultStrategy m,
    whereClause, limit, offset, orderBy⟩

/-- The response of an authenticated query to its rows. -/
def securedResponse (m : QueryMatch) (ctx : SecurityContext) (results : List Json) :
    Except FraiseQLError Json := do
  let d := m.queryDef
  let access ← applyFieldRbacFiltering x.schema d.returnType (extractProjectionFields m) ctx
  let projector := ResultProjector.ofMatch x.parseJson (access.allowed ++ access.masked) m
  let projected := projector.projectResults results d.returnsList
  let masked := if access.masked.isEmpty then projected else nullMaskedFields access.masked projected
  return ResultProjector.wrapInDataEnvelope masked d.name

/-- An authenticated query that is not in the response cache. -/
def computeResponse (m : QueryMatch) (ctx : SecurityContext) : Exec Json := do
  let request ← Traced.lift (x.securedRequest m ctx)
  let results ← x.executeWithProjection request
  x.securedResponse m ctx results

def activeCache : Option ResponseCache := x.responseCache.filter fun cache => cache.enabled

/-- `(compute_response_cache_key, hash_security_context)`. -/
def responseCacheKey (m : QueryMatch) (ctx : SecurityContext) : UInt64 × UInt64 :=
  (x.hasher (responseKeyTokens m), x.hasher (securityTokens ctx))

/-- An authenticated query that is no relay query. -/
def executeCached (m : QueryMatch) (ctx : SecurityContext) : Exec Json :=
  match x.activeCache with
  | none => x.computeResponse m ctx
  | some cache =>
    match cache.get (x.responseCacheKey m ctx) with
    | some cached => .lift (.ok cached)
    | none => do
      let response ← x.computeResponse m ctx
      Traced.call (.putResponse (x.responseCacheKey m ctx) response [m.queryDef.sqlSource.getD ""]) (.ok ())
      return response

def executeRegularQueryWithSecurity (query : String) (vars : Option Json) (ctx : SecurityContext) :
    Exec Json :=
  if ctx.isExpired x.now then
    .lift (.error (.validation "Security token has expired" (some "request.authorization")))
  else do
    let m ← Traced.lift (x.matcher query vars)
    if !hasRequiredRole m.queryDef ctx then .lift (.error (notFound m.queryDef))
    else do
      x.injectSessionVariables ctx
      if m.queryDef.relay then x.executeRelayQuery m vars (some ctx) else x.executeCached m ctx

/-- What an unauthenticated query asks the adapter for. -/
def publicRequest (m : QueryMatch) : Except FraiseQLError ProjectionRequest := do
  let d := m.queryDef
  let sqlSource ← okOr d.sqlSource noSqlSource
  let user ← userWhere x.charCase d (m.arguments.lookup "where")
  let whereClause := combineExplicitArgWhere user d.arguments m.arguments d.nativeColumns
  let limit := pageArg (whenEnabled d.autoParams.hasLimit (m.arguments.lookup "limit"))
  let offset := pageArg (whenEnabled d.autoParams.hasOffset (m.arguments.lookup "offset"))
  let orderBy ← orderByArg x.charCase x.schema d
    (whenEnabled d.autoParams.hasOrderBy (m.arguments.lookup "orderBy"))
  return ⟨sqlSource, projectionHint x.charCase x.schema x.adapter.databaseType x.defaultStrategy m,
    whereClause, limit, offset, orderBy⟩

/-- The response to rows without field access checks. -/
def publicResponse (m : QueryMatch) (results : List Json) : Json :=
  let projector := ResultProjector.ofMatch x.parseJson (extractProjectionFields m) m
  ResultProjector.wrapInDataEnvelope (projector.projectResults results m.queryDef.returnsList) m.queryDef.name

def executeRegularQuery (query : String) (vars : Option Json) : Exec Json := do
  let m ← Traced.lift (x.matcher query vars)
  if m.queryDef.requiresRole.isSome then .lift (.error (notFound m.queryDef))
  else if !m.queryDef.injectParams.isEmpty then .lift (.error (calledWithoutContext m.queryDef))
  else if m.queryDef.relay then x.executeRelayQuery m vars none
  else do
    let request ← Traced.lift (x.publicRequest m)
    let results ← x.executeWithProjection request
    return x.publicResponse m results

/-! ### Direct execution -/

/-- The values of injected parameters, resolved when there is a user. -/
def droppedConditions (d : QueryDefinition) : Option SecurityContext → Except FraiseQLError (List WhereClause)
  | some ctx => injectConditions ctx d.nativeColumns d.injectParams
  | none => .ok []

/-- What `execute_query_direct` asks the adapter for. The values of injected parameters are resolved and
dropped. -/
def directRequest (m : QueryMatch) (ctx : Option SecurityContext) : Except FraiseQLError ProjectionRequest := do
  let d := m.queryDef
  let rls ← evaluateRls x.rlsPolicy ctx d.name
  let sqlSource ← okOr d.sqlSource noSqlSource
  let user ← userWhere x.charCase d (m.arguments.lookup "where")
  let limit := pageArg (m.arguments.lookup "limit")
  let offset := pageArg (m.arguments.lookup "offset")
  let orderBy ← orderByArg x.charCase x.schema d (m.arguments.lookup "orderBy")
  let user := combineExplicitArgWhere user d.arguments m.arguments d.nativeColumns
  let composed := composeWhere rls user
  let _ ← droppedConditions d ctx
  return ⟨sqlSource, none, composed, limit, offset, orderBy⟩

def executeQueryDirect (m : QueryMatch) (ctx : Option SecurityContext) : Exec Json := do
  let request ← Traced.lift (x.directRequest m ctx)
  let results ← x.executeWithProjection request
  return x.publicResponse m results

/-- What `count_rows` asks the adapter for. -/
def countRequest (m : QueryMatch) (ctx : Option SecurityContext) : Except FraiseQLError WhereRequest := do
  let d := m.queryDef
  let rls ← evaluateRls x.rlsPolicy ctx d.name
  let sqlSource ← okOr d.sqlSource noSqlSource
  let secured ← securityWhere d rls ctx (.validation ("Query '" ++ d.name ++
    "' has inject params but no security context is available") none)
  let user ← userWhere x.charCase d (m.arguments.lookup "where")
  return ⟨sqlSource, composeWhere secured user⟩

def countRows (m : QueryMatch) (ctx : Option SecurityContext) : Exec Nat := do
  let request ← Traced.lift (x.countRequest m ctx)
  let rows ← Traced.call (.executeWhereQuery request) (x.adapter.executeWhereQuery request)
  return rows.length

end Executor

end FraiseQL
