import FraiseQL.Executor
import FraiseQL.MapEntries
import Mathlib.Data.List.Dedup
import Mathlib.Data.List.Sort

/-! Entity resolution of the federation subgraph (`entity_resolver.rs`, `database_resolver.rs`,
`query_builder.rs`). Representations are grouped by type in an unordered map, each group is read with one
statement, and rows are matched with representations by the texts of their keys. Results are numbered in the order
of the groups, so they stand where the representations stood only when there is one group. -/

namespace FraiseQL.Federation

/-! ### Metadata and representations -/

structure KeyDirective where
  fields : List String

structure FederatedType where
  name : String
  keys : List KeyDirective

abbrev FederationMetadata := List FederatedType

structure EntityRepresentation where
  typename : String
  keyFields : List (String × Json)

/-- A row as the adapter returns it. -/
abbrev Row := List (String × Json)

def findFederationType (typename : String) (metadata : FederationMetadata) : Except FraiseQLError FederatedType :=
  okOr (metadata.find? fun t => t.name = typename)
    (.validation ("Type '" ++ typename ++ "' not found in federation metadata") none)

def getKeyDirective (t : FederatedType) : Except FraiseQLError KeyDirective :=
  okOr t.keys.head? (.validation ("Type '" ++ t.name ++ "' has no @key directive") none)

/-- The complaints about one representation. -/
def representationErrors (metadata : FederationMetadata) (rep : EntityRepresentation) : List String :=
  match metadata.find? fun t => t.name = rep.typename with
  | none => ["Type " ++ rep.typename ++ " not found in federation metadata"]
  | some t =>
    match t.keys.head? with
    | none => []
    | some key => (key.fields.filter fun field => (rep.keyFields.lookup field).isNone).map fun field =>
      "Type " ++ rep.typename ++ ": key field '" ++ field ++ "' missing in representation"

def validateRepresentations (metadata : FederationMetadata) (reps : List EntityRepresentation) :
    Except FraiseQLError Unit :=
  let errors := reps.flatMap (representationErrors metadata)
  if errors.isEmpty then .ok ()
  else .error (.validation ("Invalid representations: " ++ String.intercalate "; " errors) none)

/-! ### Statements -/

/-- The statement `SELECT fields FROM table WHERE (keyFields) IN (tuples)`; each text is a quoted literal. -/
structure Statement where
  fields : List String
  table : String
  keyFields : List String
  tuples : List (List String)

def isSafeSqlIdentifier (name : String) : Bool :=
  !name.isEmpty && decide (name.utf8ByteSize ≤ 128) && name.toList.all fun c => c.isAlphanum || c = '_'

/-- The name of the type of a value in error messages. -/
def typeStr : Json → String
  | .null => "null"
  | .bool _ => "bool"
  | .num _ => "number"
  | .str _ => "string"
  | .arr _ => "array"
  | .obj _ => "object"

def valueToString : Json → Except FraiseQLError String
  | .str s => .ok s
  | .num n => .ok (Json.numberText n)
  | .bool b => .ok (if b then "true" else "false")
  | .null => .ok "null"
  | value => .error (.validation ("Cannot convert " ++ typeStr value ++ " to string for WHERE clause") none)

def keyTuple (key : KeyDirective) (rep : EntityRepresentation) : Except FraiseQLError (List String) :=
  key.fields.mapM fun field => do
    let missing := "Key field '" ++ field ++ "' missing in " ++
      if key.fields.length = 1 then "entity representation for " ++ rep.typename else "representation"
    let value ← okOr (rep.keyFields.lookup field) (.validation missing none)
    valueToString value

/-- `construct_where_in_clause`: the key fields and the tuples they are compared with. -/
def constructWhereInClause (typename : String) (reps : List EntityRepresentation) (metadata : FederationMetadata) :
    Except FraiseQLError (List String × List (List String)) := do
  let t ← findFederationType typename metadata
  let key ← getKeyDirective t
  let tuples ← reps.mapM (keyTuple key)
  return (key.fields, tuples)

/-- The selected fields with the key fields, without the meta field. -/
def selectFields (t : FederatedType) (selection : List String) : List String :=
  ((t.keys.flatMap KeyDirective.fields).foldl (fun fields field =>
    if field ∈ fields then fields else fields ++ [field]) selection).filter (· ≠ "__typename")

/-! ### Rows and results -/

def keyText : Json → String
  | .str s => s
  | value => value.text

def rowKeyTexts (key : KeyDirective) (row : Row) : Option (List String) :=
  key.fields.mapM fun field => (row.lookup field).map keyText

def repKeyTexts (key : KeyDirective) (rep : EntityRepresentation) : List String :=
  key.fields.filterMap fun field => (rep.keyFields.lookup field).map keyText

def entityOf (typename : String) (row : Row) : Json :=
  .obj (insertEntry "__typename" (.str typename) (row.foldl (fun entries e => insertEntry e.1 e.2 entries) []))

/-- `project_results`; a later row with the same key replaces an earlier one. -/
def projectResults (rows : List Row) (reps : List EntityRepresentation) (t : FederatedType) (typename : String) :
    Except FraiseQLError (List (Option Json)) :=
  match t.keys.head? with
  | none =>
    if rows.isEmpty then .ok (reps.map fun _ => none)
    else .error (.validation ("Type '" ++ typename ++ "' has no key fields") none)
  | some key =>
    let rowMap := rows.foldl (fun rowMap row =>
      match rowKeyTexts key row with
      | some texts => (texts, row) :: rowMap
      | none => rowMap) []
    .ok (reps.map fun rep => (rowMap.lookup (repKeyTexts key rep)).map (entityOf typename))

section Resolution

variable (metadata : FederationMetadata) (executeRawQuery : Statement → Except FraiseQLError (List Row))
  (selection : List String)

def resolveEntitiesFromDb (typename : String) (reps : List EntityRepresentation) :
    Except FraiseQLError (List (Option Json)) :=
  if reps.isEmpty then .ok []
  else if !isSafeSqlIdentifier typename then
    .error (.validation ("Federation entity type '" ++ typename ++
      "' contains unsafe characters for SQL interpolation") none)
  else do
    let t ← findFederationType typename metadata
    let (keyFields, tuples) ← constructWhereInClause typename reps metadata
    let rows ← executeRawQuery ⟨selectFields t selection, typename.toLower, keyFields, tuples⟩
    projectResults rows reps t typename

/-- The results of a group; when it fails every representation has none. -/
def resolveGroup (group : String × List EntityRepresentation) : List (Option Json) :=
  match resolveEntitiesFromDb metadata executeRawQuery selection group.1 group.2 with
  | .ok entities => entities
  | .error _ => group.2.map fun _ => none

def groupEntitiesByTypename (reps : List EntityRepresentation) : List (String × List EntityRepresentation) :=
  (reps.map EntityRepresentation.typename).dedup.map fun typename => (typename, reps.filter (·.typename = typename))

/-- `batch_load_entities`, walking the groups in the given order. -/
def batchLoadEntities (grouped : List (String × List EntityRepresentation)) (reps : List EntityRepresentation) :
    Except FraiseQLError (List (Option Json)) :=
  if 1000 < reps.length then
    .error (.validation ("Federation batch size " ++ toString reps.length ++ " exceeds maximum 1000")
      (some "_entities"))
  else do
    validateRepresentations metadata reps
    if reps.isEmpty then return []
    else
      let allResults := grouped.foldl (fun results group =>
        results ++ ((resolveGroup metadata executeRawQuery selection group).zipIdx results.length).map Prod.swap) []
      return (allResults.mergeSort fun a b => decide (a.1 ≤ b.1)).map Prod.snd

end Resolution

end FraiseQL.Federation
