import FraiseQL.CacheCoherence
import FraiseQL.DebugText

/-! Invalidation by a cascade response (`cache/cascade_response_parser.rs`, `invalidate_cascade_entities`). The types
of the entities are turned into view names by their small letters alone, so of the views that read a type this finds
`v_order_item` for no `OrderItem`. What is evicted is what the view index has under the derived names. -/

namespace FraiseQL.CacheAdapter

open CacheResult
open DebugText (Printer debugStr)

/-! ### The response -/

structure EntityKey where
  entityType : String
  entityId : String

def EntityKey.new (pr : Printer) (entityType entityId : String) : Except FraiseQLError EntityKey :=
  if entityType.isEmpty then .error (.validation "entity_type cannot be empty" none)
  else if ':' ∈ entityType.toList then
    .error (.validation ("entity_type " ++ String.ofList (debugStr pr entityType) ++ " must not contain a colon " ++
      "character; colons are used as the cache-key separator") none)
  else if entityId.isEmpty then .error (.validation "entity_id cannot be empty" none)
  else .ok ⟨entityType, entityId⟩

structure CascadeEntities where
  updated : List EntityKey
  deleted : List EntityKey

def CascadeEntities.allAffected (entities : CascadeEntities) : List EntityKey := entities.updated ++ entities.deleted

def CascadeEntities.hasChanges (entities : CascadeEntities) : Bool :=
  !entities.updated.isEmpty || !entities.deleted.isEmpty

/-- The `cascade` fields of the members of an object. -/
def memberCascades (value : Json) : List Json := (value.asObject?.getD []).filterMap fun e => e.2.get? "cascade"

/-- The cascades of a response, in the order in which they are looked for: its own, those of `data` and of the
members of `data`, and those of its members. -/
def cascades (response : Json) : List Json :=
  (response.get? "cascade").toList ++
    (response.get? "data").toList.flatMap (fun data => (data.get? "cascade").toList ++ memberCascades data) ++
    memberCascades response

def findCascadeField (response : Json) : Json := (cascades response).head?.getD .null

/-- The words for a value that is no list of entities. -/
def jsonKind : Json → String
  | .obj _ => "object"
  | .str _ => "string"
  | .num _ => "number"
  | .bool _ => "boolean"
  | .null => "null"
  | .arr _ => "unknown"

def parseCascadeEntity (pr : Printer) (entity : Json) : Except FraiseQLError EntityKey :=
  match entity.asObject? with
  | none => .error (.validation "Cascade entity should be object" (some "cascade.updated[*]"))
  | some entries =>
    match (Json.lookup "__typename" entries).bind Json.asStr? with
    | none => .error (.validation "Cascade entity missing __typename field" (some "cascade.updated[*].__typename"))
    | some typeName =>
      match (Json.lookup "id" entries).bind Json.asStr? with
      | none => .error (.validation "Cascade entity missing id field" (some "cascade.updated[*].id"))
      | some entityId => EntityKey.new pr typeName entityId

def extractEntitiesList (pr : Printer) (cascade : Json) (fieldName : String) : Except FraiseQLError (List EntityKey) :=
  match cascade.get? fieldName with
  | some (.arr entities) => entities.mapM (parseCascadeEntity pr)
  | some .null | none => .ok []
  | some value => .error (.validation ("cascade." ++ fieldName ++ " should be array, got " ++ jsonKind value)
      (some ("cascade." ++ fieldName)))

def parseCascadeResponse (pr : Printer) (response : Json) : Except FraiseQLError CascadeEntities :=
  match findCascadeField response with
  | .null => .ok ⟨[], []⟩
  | cascade => do
    let updated ← extractEntitiesList pr cascade "updated"
    let deleted ← extractEntitiesList pr cascade "deleted"
    return ⟨updated, deleted⟩

/-! ### Invalidation -/

def derivedView (toLowercase : String → String) (entityType : String) : String := "v_" ++ toLowercase entityType

namespace CachedDatabaseAdapter

def invalidateCascadeEntities (pr : Printer) (toLowercase : String → String) (adapter : CachedDatabaseAdapter)
    (response : Json) : Except FraiseQLError UInt64 × CachedDatabaseAdapter :=
  match parseCascadeResponse pr response with
  | .error e => (.error e, adapter)
  | .ok entities =>
    if !entities.hasChanges then (.ok 0, adapter)
    else
      let views := (entities.allAffected.map fun entity => derivedView toLowercase entity.entityType).dedup
      let result := adapter.cache.invalidateViews views
      (.ok result.1, { adapter with cache := result.2 })

end CachedDatabaseAdapter

/-! ### Completeness -/

section Completeness

variable (pr : Printer) (toUppercase : Char → List Char) (toLowercase : String → String)
  (adapter : CachedDatabaseAdapter) (response : Json)

/-- The entity types that the cascades of a response name. -/
def namedTypes : List String :=
  (cascades response).flatMap fun cascade => ["updated", "deleted"].flatMap fun fieldName =>
    (((cascade.get? fieldName).bind Json.asArray?).getD []).filterMap fun entity =>
      (entity.get? "__typename").bind Json.asStr?

/-- An entry reads a view of an entity type that the response names. -/
def ReadsNamed (e : CachedResult) : Prop :=
  ∃ v ∈ e.accessedViews, ∃ entityType ∈ namedTypes response, viewNameToEntityType toUppercase v = some entityType

/-- No entry that reads a view of a named type is left. -/
def EvictsNamed : Prop :=
  ∀ key e, (adapter.invalidateCascadeEntities pr toLowercase response).2.cache.live key = some e →
    ¬ReadsNamed toUppercase response e

/-- The views derived from the entities that are parsed. -/
def derivedViews : List String :=
  match parseCascadeResponse pr response with
  | .error _ => []
  | .ok entities => entities.allAffected.map fun entity => derivedView toLowercase entity.entityType

/-- The entries that read a view of a named type are indexed under a derived view. -/
def NamedIndexed : Prop :=
  ∀ key e, adapter.cache.live key = some e → ReadsNamed toUppercase response e →
    adapter.cache.config.enabled = true ∧
      ∃ v ∈ derivedViews pr toLowercase response, key ∈ adapter.cache.viewIndex.members v

variable {pr toUppercase toLowercase adapter response}

theorem invalidateViews_live (c : QueryResultCache) (views : List String) (key : Key) :
    (c.invalidateViews views).2.live key =
      if c.config.enabled = true ∧ ∃ v ∈ views, key ∈ c.viewIndex.members v then none else c.live key := by
  unfold QueryResultCache.invalidateViews
  cases hon : c.config.enabled with
  | false => simp
  | true => simp [invalidateKeys_live]

/-- What is left in the cache. -/
theorem invalidateCascadeEntities_live (key : Key) :
    (adapter.invalidateCascadeEntities pr toLowercase response).2.cache.live key =
      if adapter.cache.config.enabled = true ∧
        ∃ v ∈ derivedViews pr toLowercase response, key ∈ adapter.cache.viewIndex.members v
      then none else adapter.cache.live key := by
  unfold CachedDatabaseAdapter.invalidateCascadeEntities derivedViews
  cases parseCascadeResponse pr response with
  | error e => simp
  | ok entities =>
    cases hchanges : entities.hasChanges with
    | false =>
      have hnone : entities.allAffected = [] := by
        simpa [CascadeEntities.hasChanges, CascadeEntities.allAffected] using hchanges
      simp [hchanges, hnone]
    | true => simp [hchanges, invalidateViews_live]

end Completeness

/-! ### Order items -/

def asciiLowercase (s : String) : String := String.ofList (s.toList.map Char.toLower)

/-- A cache with one row of a view. -/
def heldRow (view : String) : CachedDatabaseAdapter :=
  CachedDatabaseAdapter.fill asciiUppercase ⟨new enabledConfig, ∅, [], false, none⟩ 0 1 view [.obj [("id", .str "1")]]

/-- A mutation that updated an entity. -/
def updatedResponse (entityType : String) : Json :=
  .obj [("save", .obj [("cascade", .obj [("updated",
    .arr [.obj [("__typename", .str entityType), ("id", .str "1")]])])])]

def plainPrinter : Printer := ⟨fun _ => false, fun _ => []⟩

end FraiseQL.CacheAdapter
