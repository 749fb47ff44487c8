import FraiseQL.GraphqlQuery
import FraiseQL.ResponseRows

/-! The fields a query selects, at any depth, and the places of their values in a response. A place is a path of
response keys: an alias changes the key, an inline fragment adds none, a list on the way stands for its items. A
Relay query selects from a connection, whose edges and nodes no type of the schema describes. -/

namespace FraiseQL

open MapEntries
open Graphql (stripStart)
open ProjectionPushdown (fieldOf)
open SelectionAgreement (nest)

/-! ### Values at a path -/

/-- A value stands at a path, in any item of the lists on the way. -/
inductive At : Json → List String → Json → Prop
  | here (value : Json) : At value [] value
  | item {items : List Json} {item value : Json} {path : List String} (hmem : item ∈ items) (h : At item path value) :
      At (.arr items) path value
  | key {entries : List (String × Json)} {key : String} {inner value : Json} {path : List String}
      (hkey : Json.lookup key entries = some inner) (h : At inner path value) : At (.obj entries) (key :: path) value

namespace At

variable {value : Json} {key : String} {path : List String}

theorem of_obj {entries : List (String × Json)} (h : At (.obj entries) (key :: path) value) :
    ∃ inner, Json.lookup key entries = some inner ∧ At inner path value := by
  cases h with
  | key hkey h => exact ⟨_, hkey, h⟩

theorem of_arr {items : List Json} (h : At (.arr items) (key :: path) value) :
    ∃ item ∈ items, At item (key :: path) value := by
  cases h with
  | item hmem h => exact ⟨_, hmem, h⟩

theorem of_str {s : String} (h : At (.str s) path value) : path = [] ∧ value = .str s := by
  cases h with
  | here => exact ⟨rfl, rfl⟩

theorem of_null (h : At .null path value) : path = [] ∧ value = .null := by
  cases h with
  | here => exact ⟨rfl, rfl⟩

theorem of_bool {b : Bool} (h : At (.bool b) path value) : path = [] := by
  cases h with
  | here => rfl

theorem of_num {n : JsonNumber} (h : At (.num n) path value) : path = [] := by
  cases h with
  | here => rfl

/-- A row made for a path has its value there. -/
theorem nested (path : List String) (value : Json) : At (nest path value) path value := by
  induction path with
  | nil => exact .here value
  | cons key path ih =>
    refine .key ?_ ih
    rw [lookup_cons, if_pos rfl]

end At

/-! ### Selected fields -/

/-- What the fields of a selection set are fields of. -/
inductive Position where
  | object (typeName : String)
  | connection (nodeType : String)
  | edge (nodeType : String)

/-- The type that a value of a field has, or the items of it. -/
def namedType : FieldType → Option String
  | .list inner => namedType inner
  | fieldType => fieldType.typeName

namespace Position

def field (schema : CompiledSchema) (p : Position) (name : String) : Option FieldDefinition :=
  match p with
  | .object typeName => fieldOf schema typeName name
  | _ => none

/-- What the fields under a field are fields of. -/
def child (schema : CompiledSchema) (p : Position) (name : String) : Option Position :=
  match p with
  | .object typeName => (fieldOf schema typeName name).bind fun f => (namedType f.fieldType).map .object
  | .connection nodeType => if name = "edges" then some (.edge nodeType) else none
  | .edge nodeType => if name = "node" then some (.object nodeType) else none

/-- What the fields in an inline fragment are fields of, where the name is one of an inline fragment. -/
def within (p : Position) (name : String) : Option Position :=
  (stripStart ['.', '.', '.', 'o', 'n', ' '] name).map fun condition =>
    match p with
    | .object typeName => .object (if condition = "" then typeName else condition)
    | p => p

/-- How many keys lead to a field of a type at least. -/
def distance : Position → Nat
  | .object _ => 1
  | .edge _ => 2
  | .connection _ => 3

end Position

/-- A field is selected at a path. The spreads of a match are resolved: the fields of a spread fragment stand in
its place. -/
inductive Selected (schema : CompiledSchema) : Position → List FieldSelection → List String → FieldDefinition → Prop
  | field {p : Position} {sels : List FieldSelection} {sel : FieldSelection} {f : FieldDefinition} (hmem : sel ∈ sels)
      (hfield : p.field schema sel.name = some f) : Selected schema p sels [sel.responseKey] f
  | nested {p child : Position} {sels : List FieldSelection} {sel : FieldSelection} {path : List String}
      {f : FieldDefinition} (hmem : sel ∈ sels) (hchild : p.child schema sel.name = some child)
      (h : Selected schema child sel.nestedFields path f) : Selected schema p sels (sel.responseKey :: path) f
  | fragment {p inner : Position} {sels : List FieldSelection} {sel : FieldSelection} {path : List String}
      {f : FieldDefinition} (hmem : sel ∈ sels) (hinner : p.within sel.name = some inner)
      (h : Selected schema inner sel.nestedFields path f) : Selected schema p sels path f

theorem Position.distance_child {schema : CompiledSchema} {p child : Position} {name : String}
    (h : p.child schema name = some child) : p.distance ≤ child.distance + 1 := by
  cases p with
  | object typeName => exact Nat.le_add_left 1 _
  | connection nodeType =>
    rw [Position.child] at h
    split_ifs at h
    obtain rfl := Option.some.inj h
    exact Nat.le_refl 3
  | edge nodeType =>
    rw [Position.child] at h
    split_ifs at h
    obtain rfl := Option.some.inj h
    exact Nat.le_refl 2

theorem Position.distance_within {p inner : Position} {name : String} (h : p.within name = some inner) :
    p.distance = inner.distance := by
  obtain ⟨condition, -, rfl⟩ := Option.map_eq_some_iff.mp h
  cases p <;> rfl

theorem Selected.distance_le {schema : CompiledSchema} {p : Position} {sels : List FieldSelection}
    {path : List String} {f : FieldDefinition} (h : Selected schema p sels path f) : p.distance ≤ path.length := by
  induction h with
  | @field p sels sel f hmem hfield =>
    cases p with
    | object typeName => exact Nat.le_refl 1
    | connection nodeType => cases hfield
    | edge nodeType => cases hfield
  | nested hmem hchild h ih => exact (Position.distance_child hchild).trans (Nat.succ_le_succ ih)
  | fragment hmem hinner h ih => exact (Position.distance_within hinner).trans_le ih

/-! ### Scopes -/

/-- The field requires a scope, and no role of the user gives it. -/
def Unreadable (schema : CompiledSchema) (ctx : SecurityContext) (f : FieldDefinition) : Prop :=
  ∃ scope, f.requiresScope = some scope ∧
    ∀ config, schema.security = some config → ctx.canAccessScope config scope = false

/-- What the fields under the root are fields of. -/
def rootPosition (d : QueryDefinition) : Position :=
  if d.relay then .connection d.returnType else .object d.returnType

/-- The answer of a query in a response. -/
def queryValue (d : QueryDefinition) (response : Json) : Option Json :=
  (response.get? "data").bind fun data => data.get? d.name

theorem queryValue_envelope (d : QueryDefinition) (value : Json) :
    queryValue d (ResultProjector.wrapInDataEnvelope value d.name) = some value := by
  show Json.lookup d.name [(d.name, value)] = some value
  rw [lookup_cons, if_pos rfl]

/-- The response does not show the field: its policy is not to reject the query, and nothing but `null` stands at
the path. -/
def Withheld (d : QueryDefinition) (response : Json) (path : List String) (f : FieldDefinition) : Prop :=
  f.onDeny = .mask ∧ ∀ answer value, queryValue d response = some answer → At answer path value → value = .null

/-- Every selected field that the user may not read is withheld. -/
def Enforced (schema : CompiledSchema) (ctx : SecurityContext) (m : QueryMatch) (response : Json) : Prop :=
  ∀ path f, Selected schema (rootPosition m.queryDef) m.rootFields path f → Unreadable schema ctx f →
    Withheld m.queryDef response path f

end FraiseQL
