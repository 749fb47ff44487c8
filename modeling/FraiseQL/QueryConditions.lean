import FraiseQL.SecurityContext
import FraiseQL.WhereFilter

/-! How the executor composes the WHERE clause of a query, its page and its order: the row security clause,
conditions for injected parameters, the filter of the client and conditions for explicit arguments
(`executor/query.rs`, `sql_hints.rs`). -/

namespace FraiseQL

def pgTypeToCast (dataType : String) : PgCast :=
  match dataType.toLower with
  | "uuid" => .uuid
  | "integer" | "int" | "int4" => .int4
  | "bigint" | "int8" => .int8
  | "smallint" | "int2" => .int2
  | "boolean" | "bool" => .bool
  | "numeric" | "decimal" => .numeric
  | "double precision" | "float8" => .float8
  | "real" | "float4" => .float4
  | "timestamp without time zone" | "timestamp" => .timestamp
  | "timestamp with time zone" | "timestamptz" => .timestamptz
  | "date" => .date
  | "time without time zone" | "time" => .time
  | _ => .none

/-- `inject_param_where_clause`; explicit arguments are compared the same way. -/
def injectParamWhereClause (column : String) (value : Json) (nativeColumns : List (String × String)) :
    WhereClause :=
  match nativeColumns.lookup column with
  | some pgType => .nativeField column (pgTypeToCast pgType) .eq value
  | none => .field [column] .eq value

/-- The row security clause, when there are both a policy and a user. -/
def evaluateRls (policy : Option RlsPolicy) (ctx : Option SecurityContext) (name : String) :
    Except FraiseQLError (Option WhereClause) :=
  match policy, ctx with
  | some policy, some ctx => policy ctx name
  | _, _ => .ok none

/-- One condition for each injected parameter. -/
def injectConditions (ctx : SecurityContext) (nativeColumns : List (String × String)) :
    List (String × InjectedParamSource) → Except FraiseQLError (List WhereClause)
  | [] => .ok []
  | (column, source) :: params => do
    let value ← resolveInjectValue column source ctx
    let conditions ← injectConditions ctx nativeColumns params
    return injectParamWhereClause column value nativeColumns :: conditions

/-- No condition, one, or the conjunction of several. -/
def conjunction : List WhereClause → Option WhereClause
  | [] => none
  | [clause] => some clause
  | clauses => some (.and clauses)

/-- The row security clause with the conditions of injected parameters after it. -/
def injectedWhere (d : QueryDefinition) (rls : Option WhereClause) (ctx : SecurityContext) :
    Except FraiseQLError (Option WhereClause) :=
  if d.injectParams.isEmpty then .ok rls
  else do
    let conditions ← injectConditions ctx d.nativeColumns d.injectParams
    return conjunction (rls.toList ++ conditions)

/-- Security conditions with the filter of the client after them. -/
def composeWhere : Option WhereClause → Option WhereClause → Option WhereClause
  | none, none => none
  | some sec, none => some sec
  | none, some user => some user
  | some sec, some user => some (.and [sec, user])

/-- The filter of the client, when the query has one. -/
def userWhere (cc : WhereFilter.CharCase) (d : QueryDefinition) (filter : Option Json) :
    Except FraiseQLError (Option WhereClause) :=
  if d.autoParams.hasWhere then
    match filter with
    | none => .ok none
    | some value => (WhereFilter.fromGraphqlJson cc value).map some
  else .ok none

def autoParamNames : List String := ["where", "limit", "offset", "orderBy", "first", "last", "after", "before"]

/-- The conditions of explicit arguments. -/
def explicitConditions (definedArgs : List String) (providedArgs : List (String × Json))
    (nativeColumns : List (String × String)) : List WhereClause :=
  (definedArgs.filter fun name => !autoParamNames.contains name).filterMap fun name =>
    (providedArgs.lookup name).map fun value => injectParamWhereClause name value nativeColumns

def combineExplicitArgWhere (existing : Option WhereClause) (definedArgs : List String)
    (providedArgs : List (String × Json)) (nativeColumns : List (String × String)) : Option WhereClause :=
  let explicit := explicitConditions definedArgs providedArgs nativeColumns
  if explicit.isEmpty then existing else conjunction (existing.toList ++ explicit)

/-- A `limit` or `offset`: other values than a `u32` are dropped. -/
def pageArg (value : Option Json) : Option Nat :=
  value.bind fun v => v.asU64?.bind fun n => if n < 2 ^ 32 then some n else none

/-! ### Order -/

inductive OrderDirection where
  | asc | desc

inductive OrderByFieldType where
  | text | integer | numeric | boolean | dateTime | date | time

structure OrderByClause where
  field : String
  direction : OrderDirection
  fieldType : OrderByFieldType
  nativeColumn : Option String

namespace OrderByClause

def new (field : String) (direction : OrderDirection) : OrderByClause := ⟨field, direction, .text, none⟩

def parseDirection (text : String) : Except FraiseQLError OrderDirection :=
  match text.toUpper with
  | "ASC" => .ok .asc
  | "DESC" => .ok .desc
  | _ => .error (.validation ("orderBy direction '" ++ text ++ "' must be ASC or DESC") none)

def validateFieldName (field : String) : Except FraiseQLError Unit :=
  let valid := match field.toList with
    | [] => false
    | c :: cs => (c.isAlpha || c == '_') && cs.all fun c => c.isAlphanum || c == '_'
  if valid then .ok ()
  else .error (.validation ("orderBy field name '" ++ field ++
    "' contains invalid characters; only [_A-Za-z][_0-9A-Za-z]* is allowed") none)

/-- A field with its direction, checked in the order of the source. -/
def parse (field direction : String) : Except FraiseQLError OrderByClause := do
  let direction ← parseDirection direction
  validateFieldName field
  return new field direction

/-- The entries of the object format. -/
def parseEntries : List (String × Json) → Except FraiseQLError (List OrderByClause)
  | [] => .ok []
  | (field, value) :: entries => do
    let clause ← match value.asStr? with
      | some direction => parse field direction
      | none => .error (.validation ("orderBy direction for '" ++ field ++ "' must be a string") none)
    let clauses ← parseEntries entries
    return clause :: clauses

/-- The items of the array format. -/
def parseItems : List Json → Except FraiseQLError (List OrderByClause)
  | [] => .ok []
  | item :: items => do
    let clause ← match item with
      | .obj entries =>
        match (Json.lookup "field" entries).bind Json.asStr? with
        | some field => parse field (((Json.lookup "direction" entries).bind Json.asStr?).getD "ASC")
        | none => .error (.validation "orderBy item missing 'field' string" none)
      | _ => .error (.validation "orderBy array items must be objects" none)
    let clauses ← parseItems items
    return clause :: clauses

def fromGraphqlJson : Json → Except FraiseQLError (List OrderByClause)
  | .obj entries => parseEntries entries
  | .arr items => parseItems items
  | _ => .error (.validation "orderBy must be an object or array" none)

end OrderByClause

def fieldTypeToOrderByType : FieldType → OrderByFieldType
  | .int => .integer
  | .float | .decimal => .numeric
  | .boolean => .boolean
  | .dateTime => .dateTime
  | .date => .date
  | .time => .time
  | _ => .text

def enrichOrderByClauses (cc : WhereFilter.CharCase) (clauses : List OrderByClause) (schema : CompiledSchema)
    (returnType : String) (nativeColumns : List (String × String)) : List OrderByClause :=
  clauses.map fun clause =>
    let fieldType := match (schema.findType returnType).bind fun t => t.findField clause.field with
      | some field => fieldTypeToOrderByType field.fieldType
      | none => clause.fieldType
    let storageKey := WhereFilter.toSnakeCase cc clause.field
    { clause with
      fieldType
      nativeColumn := if (nativeColumns.lookup storageKey).isSome then some storageKey
        else clause.nativeColumn }

/-- The order a client asks for. -/
def orderByArg (cc : WhereFilter.CharCase) (schema : CompiledSchema) (d : QueryDefinition)
    (value : Option Json) : Except FraiseQLError (Option (List OrderByClause)) :=
  match value with
  | none => .ok none
  | some value => (OrderByClause.fromGraphqlJson value).map fun clauses =>
    some (enrichOrderByClauses cc clauses schema d.returnType d.nativeColumns)

end FraiseQL
