import FraiseQL.CacheCascade
import FraiseQL.CacheIndex

/-! The caching adapter (`cache/adapter/`, `cache/invalidation_api.rs`) and the invalidation that a mutation
asks of it (`runtime/executor/mutation.rs`). The wrapped adapter is its answer to the read at hand, and a
cache key is the number its generator returned. `char::to_uppercase` is a parameter: it follows the Unicode
tables and may give several characters. -/

namespace FraiseQL.CacheAdapter

open CacheResult
open CacheCascade (CascadeInvalidator)

/-- `CachedDatabaseAdapter`. The fact table settings serve aggregations only. -/
structure CachedDatabaseAdapter where
  cache : QueryResultCache
  viewTtlOverrides : AList (fun _ : String => UInt64)
  cacheableViews : List String
  optInMode : Bool
  cascadeInvalidator : Option CascadeInvalidator

/-- The capital of the first character of a segment. -/
def capitalize (toUppercase : Char → List Char) : List Char → List Char
  | [] => []
  | first :: rest => toUppercase first ++ rest

def viewNameToEntityType (toUppercase : Char → List Char) (view : String) : Option String :=
  match view.toList.dropWhile (· ≠ '_') with
  | [] => none
  | _ :: afterPrefix =>
    if afterPrefix.isEmpty then none
    else some (String.ofList ((afterPrefix.splitOn '_').flatMap (capitalize toUppercase)))

namespace CachedDatabaseAdapter

variable (toUppercase : Char → List Char) (adapter : CachedDatabaseAdapter)

/-! ### Reads -/

/-- The test before the key is generated. -/
def usesCache (view : String) : Bool :=
  adapter.cache.config.enabled && !(adapter.optInMode && !adapter.cacheableViews.contains view)

/-- The lookup of a read, which counts a hit or a miss. -/
def lookup (key : Key) : Option (List Json) × CachedDatabaseAdapter :=
  ((adapter.cache.get key).1, { adapter with cache := (adapter.cache.get key).2 })

/-- The end of a missed read: the rows are stored under the view they were read from. -/
def fill (now : UInt64) (key : Key) (view : String) (rows : List Json) : CachedDatabaseAdapter :=
  { adapter with
    cache := adapter.cache.putArc now key rows [view] (adapter.viewTtlOverrides.lookup view)
      (viewNameToEntityType toUppercase view) }

/-- The common body of `execute_with_projection_impl` and `execute_where_query_impl`. -/
def executeCached (now : UInt64) (key : Key) (view : String) (answer : Except FraiseQLError (List Json)) :
    Except FraiseQLError (List Json) × CachedDatabaseAdapter :=
  if !adapter.usesCache view then (answer, adapter)
  else match adapter.lookup key with
    | (some rows, adapter) => (.ok rows, adapter)
    | (none, adapter) =>
      match answer with
      | .error e => (.error e, adapter)
      | .ok rows => (.ok rows, adapter.fill toUppercase now key view rows)

/-! ### Invalidations -/

/-- The loop that adds the transitive dependents of each view. -/
def cascade (invalidator : CascadeInvalidator) (views : List String) : List String × CascadeInvalidator :=
  views.foldl
    (fun acc view => (acc.1 ++ (acc.2.cascadeInvalidate view).1, (acc.2.cascadeInvalidate view).2))
    (views, invalidator)

/-- The views an invalidation is carried out on, with the counters of the cascade. -/
def expand (views : List String) : List String × CachedDatabaseAdapter :=
  match adapter.cascadeInvalidator with
  | none => (views, adapter)
  | some invalidator =>
    ((cascade invalidator views).1.dedup,
      { adapter with cascadeInvalidator := some (cascade invalidator views).2 })

def invalidateViews (views : List String) : UInt64 × CachedDatabaseAdapter :=
  if !adapter.cache.config.enabled then (0, adapter)
  else
    let expanded := adapter.expand views
    let result := expanded.2.cache.invalidateViews expanded.1
    (result.1, { expanded.2 with cache := result.2 })

def invalidateListQueries (views : List String) : UInt64 × CachedDatabaseAdapter :=
  if !adapter.cache.config.enabled then (0, adapter)
  else
    let expanded := adapter.expand views
    let result := expanded.2.cache.invalidateListQueries expanded.1
    (result.1, { expanded.2 with cache := result.2 })

def invalidateByEntity (entityType entityId : String) : UInt64 × CachedDatabaseAdapter :=
  let result := adapter.cache.invalidateByEntity entityType entityId
  (result.1, { adapter with cache := result.2 })

end CachedDatabaseAdapter

/-! ### Mutations -/

/-- What the invalidation reads of a `MutationDefinition`. -/
structure MutationDefinition where
  returnType : String
  invalidatesViews : List String

/-- What the invalidation reads of a `TypeDefinition`. -/
structure TypeSource where
  name : String
  sqlSource : String

/-- What the invalidation reads of a `MutationOutcome`. -/
inductive MutationOutcome where
  | success (entityType entityId : Option String)
  | error

/-- The declared views, or the view of the return type. -/
def viewsToInvalidate (types : List TypeSource) (mutationDef : MutationDefinition) : List String :=
  if mutationDef.invalidatesViews.isEmpty then
    ((types.find? fun t => t.name = mutationDef.returnType).filter fun t =>
      !t.sqlSource.isEmpty).toList.map (·.sqlSource)
  else mutationDef.invalidatesViews

namespace CachedDatabaseAdapter

variable (types : List TypeSource) (mutationDef : MutationDefinition) (adapter : CachedDatabaseAdapter)

/-- The entity-aware path. -/
def invalidateEntity : Option String → Option String → CachedDatabaseAdapter
  | some entityType, some entityId => (adapter.invalidateByEntity entityType entityId).2
  | _, _ => adapter

/-- The view-level path. -/
def invalidateDeclared (entityId : Option String) : CachedDatabaseAdapter :=
  if entityId.isNone || !mutationDef.invalidatesViews.isEmpty then
    let views := viewsToInvalidate types mutationDef
    if views.isEmpty then adapter
    else if entityId.isNone then (adapter.invalidateListQueries views).2
    else (adapter.invalidateViews views).2
  else adapter

/-- The cache invalidation of `execute_mutation_query_with_security`. -/
def afterMutation : MutationOutcome → CachedDatabaseAdapter
  | .success entityType entityId =>
    (adapter.invalidateEntity entityType entityId).invalidateDeclared types mutationDef entityId
  | .error => adapter

end CachedDatabaseAdapter

open CachedDatabaseAdapter

/-! ### Lookups -/

theorem get_fst {c : QueryResultCache} (hon : c.config.enabled = true) (key : Key) :
    (c.get key).1 = (c.live key).map (·.result) := by
  unfold QueryResultCache.get
  rw [if_neg (by simp [hon])]
  cases c.live key with
  | none => rfl
  | some e => rfl

theorem usesCache_enabled {adapter : CachedDatabaseAdapter} {view : String}
    (huses : adapter.usesCache view = true) : adapter.cache.config.enabled = true := by
  unfold usesCache at huses
  exact (Bool.and_eq_true _ _ ▸ huses).1

/-! ### What an invalidation covers -/

theorem cascadeInvalidate_dependents (c : CascadeInvalidator) (view : String) :
    (c.cascadeInvalidate view).2.dependents = c.dependents := rfl

theorem collectDependents_congr {c c' : CascadeInvalidator} (h : c'.dependents = c.dependents)
    (view : String) : c'.collectDependents view = c.collectDependents view := by
  unfold CascadeInvalidator.collectDependents
  rw [h]

/-- The loop collects the views it starts with and the cascade of each. -/
theorem mem_cascade_foldl (views : List String) (acc : List String) (c : CascadeInvalidator)
    (v : String) :
    v ∈ (views.foldl (fun acc view =>
        (acc.1 ++ (acc.2.cascadeInvalidate view).1, (acc.2.cascadeInvalidate view).2)) (acc, c)).1 ↔
      v ∈ acc ∨ ∃ w ∈ views, v ∈ c.collectDependents w := by
  induction views generalizing acc c with
  | nil => simp
  | cons view views ih =>
    rw [List.foldl_cons, ih, List.mem_append, List.exists_mem_cons_iff, or_assoc]
    have hcongr : ∀ w, (c.cascadeInvalidate view).2.collectDependents w = c.collectDependents w :=
      collectDependents_congr (cascadeInvalidate_dependents c view)
    simp only [hcongr]
    rfl

/-- The views and, with a cascade, everything that depends on one of them. -/
def Swept (adapter : CachedDatabaseAdapter) (views : List String) (v : String) : Prop :=
  v ∈ views ∨ ∃ c, adapter.cascadeInvalidator = some c ∧ ∃ w ∈ views, v ∈ c.collectDependents w

section

variable (adapter : CachedDatabaseAdapter)
include adapter

variable (views : List String)

theorem mem_expand (v : String) : v ∈ (adapter.expand views).1 ↔ Swept adapter views v := by
  unfold expand Swept
  cases hc : adapter.cascadeInvalidator with
  | none => simp
  | some c =>
    simp only [List.mem_dedup, Option.some.injEq]
    rw [show (v ∈ (cascade c views).1 ↔ _) from mem_cascade_foldl views views c v]
    refine or_congr_right ⟨fun h => ⟨c, rfl, h⟩, ?_⟩
    rintro ⟨_, rfl, h⟩
    exact h

@[simp] theorem expand_cache : (adapter.expand views).2.cache = adapter.cache := by
  unfold expand
  cases adapter.cascadeInvalidator with
  | none => rfl
  | some c => rfl

theorem invalidateViews_cache : (adapter.invalidateViews views).2.cache =
      (adapter.cache.invalidateViews (adapter.expand views).1).2 := by
  unfold CachedDatabaseAdapter.invalidateViews
  by_cases hon : adapter.cache.config.enabled = true
  · rw [if_neg (by simp [hon])]
    simp only [expand_cache]
  · rw [if_pos (by simp [hon]), QueryResultCache.invalidateViews, if_pos (by simp [hon])]

theorem invalidateListQueries_cache : (adapter.invalidateListQueries views).2.cache =
      (adapter.cache.invalidateListQueries (adapter.expand views).1).2 := by
  unfold CachedDatabaseAdapter.invalidateListQueries
  by_cases hon : adapter.cache.config.enabled = true
  · rw [if_neg (by simp [hon])]
    simp only [expand_cache]
  · rw [if_pos (by simp [hon]), QueryResultCache.invalidateListQueries, if_pos (by simp [hon])]

end

end FraiseQL.CacheAdapter
