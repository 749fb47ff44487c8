import FraiseQL.Error
import FraiseQL.Json
import FraiseQL.SetMap

/-! The query result cache (`cache/result.rs`): a store with three reverse indexes, kept up to date by
`put_arc` on the way in and by the store's eviction listener on the way out. The listener is called once,
with the old value, for every entry that is removed, expired or replaced; the call may come right after
the removal or later, so a removed entry waits in `notifications` until a `notify` step serves it. Expiry
and the capacity policy are a step `evict` that may remove any live key at any time; `max_entries` and
`ttl_seconds` have no other effect on the state. The clock is an argument of `put_arc`. -/

namespace FraiseQL.CacheResult

/-- A cache key (`u64`). -/
abbrev Key := UInt64

/-- `CachedResult`. A row is the `data` of its `JsonbValue`. -/
structure CachedResult where
  result : List Json
  accessedViews : List String
  cachedAt : UInt64
  ttlSeconds : UInt64
  entityRefs : List (String × String)
  isListQuery : Bool

/-- `CacheConfig`, with what `new` asserts of it. `rls_enforcement` is not read by the store. -/
structure CacheConfig where
  enabled : Bool
  maxEntries : Nat
  ttlSeconds : UInt64
  cacheListQueries : Bool
  maxEntryBytes : Option Nat
  maxTotalBytes : Option Nat
  maxEntries_pos : 0 < maxEntries

def CacheConfig.default : CacheConfig where
  enabled := false
  maxEntries := 10000
  ttlSeconds := 86400
  cacheListQueries := true
  maxEntryBytes := none
  maxTotalBytes := none
  maxEntries_pos := by decide

/-- `QueryResultCache`, with the removed entries whose listener call is still to come. -/
structure QueryResultCache where
  config : CacheConfig
  store : AList (fun _ : Key => CachedResult)
  notifications : List (Key × CachedResult)
  hits : UInt64
  misses : UInt64
  totalCached : UInt64
  invalidations : UInt64
  memoryBytes : UInt64
  viewIndex : SetMap String Key
  entityIndex : SetMap₂ String String Key
  listIndex : SetMap String Key

/-- `entry_overhead`: `size_of::<CachedResult>()` is 64 on a 64-bit target. -/
def entryOverhead : UInt64 := 64 + 8 * 2

def new (config : CacheConfig) : QueryResultCache :=
  ⟨config, ∅, [], 0, 0, 0, 0, 0, ∅, ∅, ∅⟩

namespace QueryResultCache

variable (c : QueryResultCache)

/-! ### The store -/

/-- The live entry of a key. -/
def live (key : Key) : Option CachedResult := c.store.lookup key

/-- `store.insert`; a live entry of the key is replaced and handed to the listener. -/
def storeInsert (key : Key) (value : CachedResult) : QueryResultCache :=
  { c with
    store := c.store.insert key value
    notifications := c.notifications ++ (c.live key).toList.map (key, ·) }

/-- `store.invalidate`, and the removal of one expired or evicted entry. -/
def storeInvalidate (key : Key) : QueryResultCache :=
  { c with
    store := c.store.erase key
    notifications := c.notifications ++ (c.live key).toList.map (key, ·) }

/-- `store.invalidate_all`. -/
def storeInvalidateAll : QueryResultCache :=
  { c with
    store := ∅
    notifications := c.notifications ++ c.store.entries.map fun e => (e.1, e.2) }

/-- The eviction listener of `build_store`. -/
def evictionListener (key : Key) (value : CachedResult) : QueryResultCache :=
  { c with
    memoryBytes := c.memoryBytes - entryOverhead
    viewIndex := c.viewIndex.removeAll value.accessedViews key
    listIndex :=
      if value.isListQuery then c.listIndex.removeAll value.accessedViews key else c.listIndex
    entityIndex := c.entityIndex.removeAll value.entityRefs key }

/-- The listener call for one of the removed entries. -/
def notify (i : Nat) : QueryResultCache :=
  match c.notifications[i]? with
  | some (key, value) =>
    { c.evictionListener key value with notifications := c.notifications.eraseIdx i }
  | none => c

/-! ### The operations -/

def get (key : Key) : Option (List Json) × QueryResultCache :=
  if !c.config.enabled then (none, c)
  else match c.live key with
    | some cached => (some cached.result, { c with hits := c.hits + 1 })
    | none => (none, { c with misses := c.misses + 1 })

/-- The length of `serde_json::to_vec` of the rows; a `JsonbValue` is an object with one field `data`. -/
def estimatedBytes (result : List Json) : Nat :=
  (Json.arr (result.map fun row => .obj [("data", row)])).text.utf8ByteSize

/-- The gates `put_arc` passes before it touches the indexes. -/
def admits (result : List Json) : Bool :=
  c.config.enabled &&
  (c.config.cacheListQueries || decide (result.length ≤ 1)) &&
  (match c.config.maxEntryBytes with
    | some maxEntry => decide (estimatedBytes result ≤ maxEntry)
    | none => true) &&
  (match c.config.maxTotalBytes with
    | some maxTotal => decide (c.memoryBytes.toNat < maxTotal)
    | none => true)

/-- The entity references of all rows with a string `id`. -/
def entityRefsOf (result : List Json) : Option String → List (String × String)
  | some entityType => result.filterMap fun row =>
    ((row.get? "id").bind Json.asStr?).map fun id => (entityType, id)
  | none => []

/-- The entry `put_arc` builds. -/
def entryOf (now : UInt64) (result : List Json) (accessedViews : List String)
    (ttlOverride : Option UInt64) (entityType : Option String) : CachedResult where
  result := result
  accessedViews := accessedViews
  cachedAt := now
  ttlSeconds := ttlOverride.getD c.config.ttlSeconds
  entityRefs := entityRefsOf result entityType
  isListQuery := decide (1 < result.length)

/-- The registration of an entry in the three indexes. -/
def register (key : Key) (value : CachedResult) : QueryResultCache :=
  { c with
    viewIndex := c.viewIndex.addAll value.accessedViews key
    listIndex :=
      if value.isListQuery then c.listIndex.addAll value.accessedViews key else c.listIndex
    entityIndex := c.entityIndex.addAll value.entityRefs key
    memoryBytes := c.memoryBytes + entryOverhead }

/-- `put_arc`, and `put`, which wraps its result and calls it. -/
def putArc (now : UInt64) (key : Key) (result : List Json) (accessedViews : List String)
    (ttlOverride : Option UInt64) (entityType : Option String) : QueryResultCache :=
  if c.admits result then
    let value := c.entryOf now result accessedViews ttlOverride entityType
    let inserted := (c.register key value).storeInsert key value
    { inserted with totalCached := inserted.totalCached + 1 }
  else c

/-- The loop over the collected keys, and the counter after it. -/
def invalidateKeys (keys : List Key) : UInt64 × QueryResultCache :=
  let count := UInt64.ofNat keys.length
  let removed := keys.foldl storeInvalidate c
  (count, { removed with invalidations := removed.invalidations + count })

/-- `invalidate_views`. The keys are collected into a hash set. -/
def invalidateViews (views : List String) : UInt64 × QueryResultCache :=
  if !c.config.enabled then (0, c)
  else c.invalidateKeys (views.flatMap c.viewIndex.members).dedup

def invalidateListQueries (views : List String) : UInt64 × QueryResultCache :=
  if !c.config.enabled then (0, c)
  else c.invalidateKeys (views.flatMap c.listIndex.members).dedup

def invalidateByEntity (entityType entityId : String) : UInt64 × QueryResultCache :=
  if !c.config.enabled then (0, c)
  else if (c.entityIndex.lookup entityType).isNone then (0, c)
  else c.invalidateKeys (c.entityIndex.members (entityType, entityId))

def clear : QueryResultCache :=
  { c.storeInvalidateAll with
    viewIndex := ∅
    entityIndex := ∅
    listIndex := ∅
    memoryBytes := 0 }

end QueryResultCache

open QueryResultCache

/-- The calls on the cache, the evictions the store decides on, and the listener calls. -/
inductive Op where
  | put (now : UInt64) (key : Key) (result : List Json) (accessedViews : List String)
      (ttlOverride : Option UInt64) (entityType : Option String)
  | get (key : Key)
  | invalidateViews (views : List String)
  | invalidateListQueries (views : List String)
  | invalidateByEntity (entityType entityId : String)
  | clear
  | evict (key : Key)
  | notify (i : Nat)

/-- The state after one step. -/
def step (c : QueryResultCache) : Op → QueryResultCache
  | .put now key result views ttl entityType => c.putArc now key result views ttl entityType
  | .get key => (c.get key).2
  | .invalidateViews views => (c.invalidateViews views).2
  | .invalidateListQueries views => (c.invalidateListQueries views).2
  | .invalidateByEntity entityType entityId => (c.invalidateByEntity entityType entityId).2
  | .clear => c.clear
  | .evict key => c.storeInvalidate key
  | .notify i => c.notify i

/-- The state after a sequence of steps on a new cache. -/
def run (config : CacheConfig) (ops : List Op) : QueryResultCache := ops.foldl step (new config)

end FraiseQL.CacheResult
