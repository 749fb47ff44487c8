import FraiseQL.RestGet

/-! Embedded resources of a GET request (`rest/embedding.rs`, `handle_get` of `rest/handler.rs`): for every row of the
response a query of the target type by the join key of the row, and counts by the same key. The rows are those of the
response, as the executor has projected them. -/

namespace FraiseQL.Rest

/-! ### Join keys -/

namespace Relationship

variable (rel : Relationship)

/-- The field of a parent row with its join key. -/
def joinField : String :=
  match rel.cardinality with
  | .manyToOne | .oneToOne => rel.foreignKey
  | .oneToMany => rel.referencedKey

/-- The field of a target row that is compared with the join key. -/
def filterField : String :=
  match rel.cardinality with
  | .manyToOne | .oneToOne => rel.referencedKey
  | .oneToMany => rel.foreignKey

end Relationship

def isNotNull : Json → Bool
  | .null => false
  | _ => true

def extractJoinKey (row : Json) (rel : Relationship) : Option Json := (row.get? rel.joinField).filter isNotNull

/-- A field of a row that is an object. -/
def writeField (name : String) (value : Json) : Json → Json
  | .obj entries => .obj (insertEntry name value entries)
  | row => row

/-- The value of `set_empty_embedding`. -/
def emptyEmbedding : Cardinality → Json
  | .oneToMany => .arr []
  | .manyToOne | .oneToOne => .null

/-- The value of an embedding, from the data of a query. -/
def embeddedValue : Cardinality → Option Json → Json
  | .oneToMany, some (.arr rows) => .arr rows
  | .oneToMany, some other => .arr [other]
  | .oneToMany, none => .arr []
  | .manyToOne, some (.arr (row :: _)) | .oneToOne, some (.arr (row :: _)) => row
  | .manyToOne, some other | .oneToOne, some other => other
  | .manyToOne, none | .oneToOne, none => .null

def extractQueryData (result : Json) (queryName : String) : Option Json :=
  (result.get? "data").bind fun data => data.get? queryName

/-- The where clause for a join key; fields of the filter stand over it. -/
def joinWhere (rel : Relationship) (key : Json) (filter : Option Json) : Json :=
  .obj (((filter.bind Json.asObject?).getD []).foldl (fun entries e => insertEntry e.1 e.2 entries)
    [(rel.filterField, .obj [("eq", key)])])

def flatFields (entries : List SelectEntry) : List String :=
  entries.filterMap fun
    | .field name => some name
    | _ => none

/-! ### Execution -/

namespace RestHandler

variable (h : RestHandler) (ctx : Option SecurityContext)

def findListQueryForType (typeName : String) : Option QueryDefinition :=
  h.executor.schema.queries.find? fun d => d.returnType = typeName && d.returnsList

def embedIntoSingle (rel : Relationship) (outputName : String) (subFields : List String) (filter : Option Json)
    (row : Json) : Traced RestError Call Json :=
  match extractJoinKey row rel, h.findListQueryForType rel.targetType with
  | some key, some target => do
    let m := QueryMatch.fromOperation target subFields
      [("limit", .ofNat h.config.maxPageSize), ("where", joinWhere rel key filter)]
      (List.pairwise_pair.mpr (show "limit" < "where" by decide))
    let result ← (h.executor.executeQueryDirect m ctx).mapError RestError.ofError
    return writeField outputName (embeddedValue rel.cardinality (extractQueryData result target.name)) row
  | _, _ => pure (writeField outputName (emptyEmbedding rel.cardinality) row)

def countRelated (rel : Relationship) (row : Json) : Traced RestError Call Nat :=
  match extractJoinKey row rel, h.findListQueryForType rel.targetType with
  | some key, some target =>
    (h.executor.countRows (.fromOperation target [] [("where", joinWhere rel key none)]
      (List.pairwise_singleton _ _)) ctx).mapError RestError.ofError
  | _, _ => pure 0

/-- A step over every row of an array. -/
def overRows (f : Json → Traced RestError Call Json) : List Json → Traced RestError Call (List Json)
  | [] => pure []
  | row :: rows => do
    let row ← f row
    let rows ← overRows f rows
    return row :: rows

/-- A step over the rows of a response: of an array each one, of an object the object. -/
def overParents (f : Json → Traced RestError Call Json) : Json → Traced RestError Call Json
  | .arr rows => do return .arr (← overRows f rows)
  | .obj entries => f (.obj entries)
  | data => pure data

def noRelationship (parentType name : String) : RestError :=
  .badRequest ("Type '" ++ parentType ++ "' has no relationship '" ++ name ++ "'")

/-- The relationship of a type with a name. -/
def findRelationship (t : RestEntity) (name : String) : Option Relationship :=
  t.relationships.find? fun r => r.name = name

section Parent

variable (parentType : String) (t : RestEntity)

/-- A step over the rows of a response for every item of a list, along the relationship that the item names. -/
def followAll {α : Type} (relationship : α → String) (step : α → Relationship → Json → Traced RestError Call Json) :
    List α → Json → Traced RestError Call Json
  | [], data => pure data
  | item :: items, data => do
    let rel ← Traced.lift (match findRelationship t (relationship item) with
      | some rel => .ok rel
      | none => .error (noRelationship parentType (relationship item)))
    let data ← overParents (step item rel) data
    followAll relationship step items data

/-- The embeddings of a response, one after the other. -/
def embedAll (filters : List (String × Json)) : List EmbeddedSpec → Json → Traced RestError Call Json :=
  followAll parentType t EmbeddedSpec.relationship fun spec rel =>
    h.embedIntoSingle ctx rel spec.outputName (flatFields spec.fields) (Json.lookup spec.relationship filters)

/-- The counts of a response. -/
def countAll : List String → Json → Traced RestError Call Json :=
  followAll parentType t id fun name rel row => do
    let count ← h.countRelated ctx rel row
    return writeField (name ++ "_count") (.ofNat count) row

end Parent

def parentEntity (parentType : String) : Except RestError RestEntity :=
  match h.findType parentType with
  | some t => .ok t
  | none => .error (.internal ("Parent type not found: " ++ parentType))

def executeEmbeddings (parentType : String) (embeddings : List EmbeddedSpec) (filters : List (String × Json))
    (data : Json) : Traced RestError Call Json :=
  if embeddings.isEmpty then pure data
  else do
    let t ← Traced.lift (h.parentEntity parentType)
    h.embedAll ctx parentType t filters embeddings data

def executeEmbeddingCounts (parentType : String) (counts : List String) (data : Json) : Traced RestError Call Json :=
  if counts.isEmpty then pure data
  else do
    let t ← Traced.lift (h.parentEntity parentType)
    h.countAll ctx parentType t counts data

/-- The data of `build_query_response`. -/
def responseData (result : Json) : Json :=
  match result.get? "data" with
  | some (.obj entries) => (entries.head?.map Prod.snd).getD .null
  | some data => data
  | none => result

/-- The count of all rows that a preference asks for. -/
def preferredCount (m : QueryMatch) (wantsCount : Bool) : Traced RestError Call (Option Nat) :=
  if wantsCount then do return some (← (h.executor.countRows m ctx).mapError RestError.ofError) else pure none

/-- `handle_get` after the request has been resolved, with the data of its body. -/
def getData (q : ResolvedGetQuery) (wantsCount : Bool) : Traced RestError Call Json := do
  let result ← (h.queryDirect q.queryMatch q.queryVariables ctx).mapError RestError.ofError
  let _ ← h.preferredCount ctx q.queryMatch wantsCount
  let embedded ← h.executeEmbeddings ctx q.queryMatch.queryDef.returnType q.params.selection.embeddings
    q.params.embeddingFilters (responseData result)
  h.executeEmbeddingCounts ctx q.queryMatch.queryDef.returnType q.params.selection.counts embedded

end RestHandler

end FraiseQL.Rest
