import FraiseQL.QueryConditions

/-! What a query selects and how rows become a response: matched queries, the plan, the typed projection and
its SQL, the projection of rows (`matcher.rs`, `planner.rs`, `executor/query.rs`, `projection_generator.rs`,
`projection.rs`). A `serde_json` map is ordered by its keys. -/

namespace FraiseQL

/-- `FieldSelection`, after directives have been evaluated. An argument has its name and the JSON text of its
value. -/
inductive FieldSelection where
  | mk (name : String) (aliasName : Option String) (arguments : List (String × String))
      (nestedFields : List FieldSelection)

namespace FieldSelection

def name : FieldSelection → String
  | .mk name _ _ _ => name

def aliasName : FieldSelection → Option String
  | .mk _ aliasName _ _ => aliasName

def arguments : FieldSelection → List (String × String)
  | .mk _ _ arguments _ => arguments

def nestedFields : FieldSelection → List FieldSelection
  | .mk _ _ _ nestedFields => nestedFields

def responseKey (sel : FieldSelection) : String := sel.aliasName.getD sel.name

end FieldSelection

/-- `QueryMatch`. The arguments are the entries of a map whose order is only observed sorted. -/
structure QueryMatch where
  queryDef : QueryDefinition
  selections : List FieldSelection
  arguments : List (String × Json)
  sorted : arguments.Pairwise fun a b => a.1 < b.1

namespace QueryMatch

theorem sorted_nil : List.Pairwise (fun a b => a.1 < b.1) ([] : List (String × Json)) := .nil

/-- The `fields` of a match: in both of its constructors they are the names of the selections
(`extract_field_names`). -/
def fields (m : QueryMatch) : List String := m.selections.map FieldSelection.name

def rootFields (m : QueryMatch) : List FieldSelection := (m.selections.head?.map (·.nestedFields)).getD []

def fromOperation (queryDef : QueryDefinition) (fields : List String) (arguments : List (String × Json))
    (sorted : arguments.Pairwise fun a b => a.1 < b.1) : QueryMatch :=
  ⟨queryDef, fields.map fun name => .mk name none [] [], arguments, sorted⟩

end QueryMatch

/-! ### The plan -/

inductive JsonbStrategy where
  | project | stream
  deriving DecidableEq

def extractProjectionFields (m : QueryMatch) : List String :=
  (m.rootFields.filter fun f => f.name ≠ "__typename").map FieldSelection.responseKey

def chooseJsonbStrategy (defaultStrategy : JsonbStrategy) (projectionFields : List String) : JsonbStrategy :=
  if projectionFields.isEmpty then defaultStrategy else .project

/-! ### The typed projection -/

inductive FieldKind where
  | text | native | composite
  deriving DecidableEq

inductive ProjectionField where
  | mk (name : String) (kind : FieldKind) (subFields : Option (List ProjectionField))

def maxDepth : Nat := 4

def kindOf : Option FieldDefinition → FieldKind
  | none => .native
  | some field =>
    if !field.fieldType.isScalar then .composite
    else if field.fieldType = .string ∨ field.fieldType = .id then .text
    else .native

/-- The type to project the fields of an object with; lists are not projected. -/
def childType (field : Option FieldDefinition) : Option String :=
  field.bind fun field =>
    if !field.fieldType.isScalar && !field.fieldType.isList then
      field.fieldType.typeName.bind fun name => if name.isEmpty then none else some name
    else none

mutual

def buildTypedProjectionFields (schema : CompiledSchema) (parentType : String) (depth : Nat) :
    List FieldSelection → List ProjectionField
  | [] => []
  | sel :: sels =>
    if sel.name = "__typename" then buildTypedProjectionFields schema parentType depth sels
    else typedField schema parentType depth sel :: buildTypedProjectionFields schema parentType depth sels

/-- One selected field; sub-fields are projected in objects down to the maximal depth. -/
def typedField (schema : CompiledSchema) (parentType : String) (depth : Nat) :
    FieldSelection → ProjectionField
  | .mk name aliasName _ nestedFields =>
    let field := (schema.findType parentType).bind fun t => t.findField name
    let subFields := match childType field with
      | some child =>
        if !nestedFields.isEmpty && decide (depth < maxDepth) then
          some (buildTypedProjectionFields schema child (depth + 1) nestedFields)
        else none
      | none => none
    .mk (aliasName.getD name) (kindOf field) subFields

end

/-- `escape_sql_string` of the projection generator. -/
def escapeQuotes (s : String) : String :=
  String.ofList (s.toList.flatMap fun c => if c = '\'' then ['\'', '\''] else [c])

section Render

variable (cc : WhereFilter.CharCase)

mutual

/-- `render_field`: a key and the expression for it. -/
def renderField (path : String) (depth : Nat) : ProjectionField → String
  | .mk name kind subFields =>
    let respKey := escapeQuotes name
    let jsonbKey := escapeQuotes (WhereFilter.toSnakeCase cc name)
    let direct := "'" ++ respKey ++ "', " ++ path ++ (if kind = .text then "->>" else "->") ++ "'" ++
      jsonbKey ++ "'"
    match subFields with
    | some (sub :: subs) =>
      if depth < maxDepth then
        "'" ++ respKey ++ "', jsonb_build_object(" ++ String.intercalate ","
          (renderFields (path ++ "->'" ++ jsonbKey ++ "'") (depth + 1) (sub :: subs)) ++ ")"
      else direct
    | _ => direct

def renderFields (path : String) (depth : Nat) : List ProjectionField → List String
  | [] => []
  | field :: fields => renderField path depth field :: renderFields path depth fields

end

/-- `generate_typed_projection_sql`; it never fails. -/
def generateTypedProjectionSql (fields : List ProjectionField) : String :=
  if fields.isEmpty then "\"data\""
  else "jsonb_build_object(" ++ String.intercalate "," (renderFields cc "\"data\"" 0 fields) ++ ")"

end Render

def computeProjectionReduction (projectedFieldCount : Nat) : Nat :=
  min 90 (max 10 ((20 - min projectedFieldCount 20) * 100 / 20))

inductive DatabaseType where
  | postgresql | mysql | sqlite | sqlserver
  deriving DecidableEq

def DatabaseType.asStr : DatabaseType → String
  | .postgresql => "postgresql"
  | .mysql => "mysql"
  | .sqlite => "sqlite"
  | .sqlserver => "sqlserver"

structure SqlProjectionHint where
  database : DatabaseType
  projectionTemplate : String
  estimatedReductionPercent : Nat

/-- The projection hint of the regular paths. -/
def projectionHint (cc : WhereFilter.CharCase) (schema : CompiledSchema) (database : DatabaseType)
    (defaultStrategy : JsonbStrategy) (m : QueryMatch) : Option SqlProjectionHint :=
  let projectionFields := extractProjectionFields m
  if !projectionFields.isEmpty && decide (chooseJsonbStrategy defaultStrategy projectionFields = .project) then
    some ⟨database, generateTypedProjectionSql cc
      (buildTypedProjectionFields schema m.queryDef.returnType 0 m.rootFields),
      computeProjectionReduction projectionFields.length⟩
  else none

/-! ### Projection of rows -/

/-- `Map::insert`, in key order. -/
def insertEntry (key : String) (value : Json) : List (String × Json) → List (String × Json)
  | [] => [(key, value)]
  | (k, v) :: entries =>
    if key = k then (k, value) :: entries
    else if key < k then (key, value) :: (k, v) :: entries
    else (k, v) :: insertEntry key value entries

/-- `ResultProjector` made from field names; the parser is `serde_json::from_str`. -/
structure ResultProjector where
  fields : List String
  typename : Option String
  parse : String → Option Json

namespace ResultProjector

/-- `configure_typename_from_selections`. -/
def wantsTypename (m : QueryMatch) : Bool := m.rootFields.any fun f => f.name = "__typename"

def ofMatch (parse : String → Option Json) (fields : List String) (m : QueryMatch) : ResultProjector :=
  ⟨fields, if wantsTypename m then some m.queryDef.returnType else none, parse⟩

/-- `project_nested_value` for a field without a nested type: a string that is the text of an object or an
array is replaced by it. -/
def projectNestedValue (p : ResultProjector) (value : Json) : Json :=
  match value with
  | .str s =>
    match p.parse s with
    | some (.obj entries) => .obj entries
    | some (.arr items) => .arr items
    | _ => value
  | _ => value

def projectJsonObject (p : ResultProjector) (row : List (String × Json)) : Json :=
  let start := match p.typename with
    | some typename => [("__typename", .str typename)]
    | none => []
  .obj (p.fields.foldl (fun result field =>
    match Json.lookup field row with
    | some value => insertEntry field (p.projectNestedValue value) result
    | none => result) start)

def project (p : ResultProjector) : Json → Json
  | .obj row => p.projectJsonObject row
  | .arr items => .arr (items.map fun item =>
    match item with
    | .obj row => p.projectJsonObject row
    | other => other)
  | value => value

def projectResults (p : ResultProjector) (results : List Json) (isList : Bool) : Json :=
  if isList then .arr (results.map p.project)
  else match results with
    | first :: _ => p.project first
    | [] => .null

def wrapInDataEnvelope (result : Json) (queryName : String) : Json := .obj [("data", .obj [(queryName, result)])]

end ResultProjector

mutual

def nullMaskedFields (masked : List String) : Json → Json
  | .obj entries => .obj (entries.map fun e => if masked.contains e.1 then (e.1, .null) else e)
  | .arr items => .arr (nullMaskedItems masked items)
  | value => value

def nullMaskedItems (masked : List String) : List Json → List Json
  | [] => []
  | item :: items => nullMaskedFields masked item :: nullMaskedItems masked items

end

end FraiseQL
