import FraiseQL.CacheAdapter

/-! Coherence of the row cache over runs of cached reads and mutations, one after another. A row of a read
is the entity it shows, with the columns that the projection kept of it; the system remembers for each key
which read filled it. A mutation of an entity removes the entries registered under that entity, and an entry
is registered under the type its view's name spells and under the identifiers that its stored columns still
show. A creation removes the entries registered as lists, which are those of more than one row. -/

namespace FraiseQL.CacheAdapter

open CacheResult CachedDatabaseAdapter QueryResultCache Option
open CacheCascade (CascadeInvalidator)

/-! ### The list index -/

/-- Every live entry of more than one row is registered as a list under each of its views. -/
def ListIndexed (c : QueryResultCache) : Prop :=
  ∀ key e, c.live key = some e → e.isListQuery = true → ∀ v ∈ e.accessedViews,
    key ∈ c.listIndex.members v

theorem listIndexed_new (config : CacheConfig) : ListIndexed (new config) := by
  intro key e hlive
  simp [new, live] at hlive

variable {c : QueryResultCache}

theorem ListIndexed.shrink {c' : QueryResultCache} (h : ListIndexed c) (hshrinks : Shrinks c c')
    (hindex : c'.listIndex = c.listIndex) : ListIndexed c' := by
  intro key e hlive hlist v hv
  rw [hindex]
  exact h key e (hshrinks.live key e hlive) hlist v hv

theorem foldl_listIndex (keys : List Key) (c : QueryResultCache) :
    (keys.foldl storeInvalidate c).listIndex = c.listIndex := by
  induction keys generalizing c with
  | nil => rfl
  | cons key keys ih =>
    rw [List.foldl_cons, ih]
    rfl

theorem invalidateKeys_listIndex (c : QueryResultCache) (keys : List Key) :
    (c.invalidateKeys keys).2.listIndex = c.listIndex :=
  foldl_listIndex keys c

theorem ListIndexed.notify (h : ListIndexed c) (hinv : Inv c) (i : Nat) : ListIndexed (c.notify i) := by
  unfold QueryResultCache.notify
  cases hi : c.notifications[i]? with
  | none => exact h
  | some n =>
    obtain ⟨k, old⟩ := n
    intro key e hlive hlist v hv
    have hmem := h key e hlive hlist v hv
    by_cases hold : old.isListQuery = true
    · have happart := (hinv.apart key e old hlive)
      simp only [evictionListener, if_pos hold]
      refine SetMap.mem_members_removeAll.mpr ⟨hmem, ?_⟩
      rintro ⟨hv', rfl⟩
      exact (happart (List.mem_of_getElem? hi)).1 hv hv'
    · simp only [evictionListener, if_neg hold]
      exact hmem

theorem ListIndexed.putArc (h : ListIndexed c) (now : UInt64) (key : Key)
    (result : List Json) (views : List String) (ttl : Option UInt64) (entityType : Option String) :
    ListIndexed (c.putArc now key result views ttl entityType) := by
  by_cases hadmits : c.admits result = true
  · obtain ⟨-, hlive, -, -, -⟩ := putArc_admitted c now key result views ttl entityType hadmits
    intro k e he hlist v hv
    rw [hlive] at he
    unfold QueryResultCache.putArc
    rw [if_pos hadmits]
    split_ifs at he with hk
    · obtain rfl := some.inj he
      simp only [storeInsert, register, if_pos hlist]
      exact SetMap.mem_members_addAll.mpr (.inl ⟨hv, hk⟩)
    · have hmem := h k e he hlist v hv
      simp only [storeInsert, register]
      split_ifs
      · exact SetMap.mem_members_addAll.mpr (.inr hmem)
      · exact hmem
  · unfold QueryResultCache.putArc
    rw [if_neg hadmits]
    exact h

theorem ListIndexed.step (h : ListIndexed c) (hinv : Inv c) (op : Op) : ListIndexed (step c op) := by
  cases op with
  | put now key result views ttl entityType => exact h.putArc now key result views ttl entityType
  | get key =>
    refine h.shrink (shrinks_get c key) ?_
    show (c.get key).2.listIndex = c.listIndex
    unfold QueryResultCache.get
    split_ifs
    · rfl
    · cases c.live key with
      | none => rfl
      | some e => rfl
  | invalidateViews views =>
    refine h.shrink (shrinks_invalidateViews c views) ?_
    show (c.invalidateViews views).2.listIndex = c.listIndex
    unfold QueryResultCache.invalidateViews
    split_ifs
    · rfl
    · exact invalidateKeys_listIndex c _
  | invalidateListQueries views =>
    refine h.shrink (shrinks_invalidateListQueries c views) ?_
    show (c.invalidateListQueries views).2.listIndex = c.listIndex
    unfold QueryResultCache.invalidateListQueries
    split_ifs
    · rfl
    · exact invalidateKeys_listIndex c _
  | invalidateByEntity t id =>
    refine h.shrink (shrinks_invalidateByEntity c t id) ?_
    show (c.invalidateByEntity t id).2.listIndex = c.listIndex
    unfold QueryResultCache.invalidateByEntity
    split_ifs
    · rfl
    · rfl
    · exact invalidateKeys_listIndex c _
  | clear =>
    intro key e hlive
    have hnone := clear_live c key
    rw [show c.clear.live key = some e from hlive] at hnone
    cases hnone
  | evict key => exact h.shrink (shrinks_storeInvalidate c key) rfl
  | notify i => exact h.notify hinv i

theorem ListIndexed.foldl (h : ListIndexed c) (hinv : Inv c) (ops : List Op)
    (hfresh : Fresh c ops) : ListIndexed (ops.foldl CacheResult.step c) := by
  induction ops generalizing c with
  | nil => exact h
  | cons op ops ih => exact ih (h.step hinv op) (inv_step hinv op hfresh.1) hfresh.2

/-- An invalidation of list queries leaves no entry of more than one row over its views. -/
theorem ListIndexed.afterLists (h : ListIndexed c) (hinv : Inv c) (views : List String) (key : Key) (e : CachedResult)
    (hlive : (c.invalidateListQueries views).2.live key = some e) (hlist : e.isListQuery = true)
    (v : String) (hv : v ∈ e.accessedViews) : v ∉ views := by
  intro hviews
  have hbefore := (shrinks_invalidateListQueries c views).live key e hlive
  unfold QueryResultCache.invalidateListQueries at hlive
  by_cases hon : c.config.enabled = true
  · rw [if_neg (by simp [hon]), invalidateKeys_live, if_pos] at hlive
    · cases hlive
    · exact List.mem_dedup.mpr (List.mem_flatMap.mpr ⟨v, hviews, h key e hbefore hlist v hv⟩)
  · rw [hinv.disabled (Bool.not_eq_true _ ▸ hon) key] at hbefore
    cases hbefore

/-! ### The system -/

/-- One row of a read: the entity it shows and the columns that were kept of it. -/
structure EntityRow where
  entityType : String
  id : String
  data : Json

/-- A read through the cache, with the answer the database would give it now. -/
structure Read where
  now : UInt64
  key : Key
  view : String
  returnsList : Bool
  answer : Except FraiseQLError (List EntityRow)

/-- What a read stored. -/
structure Fill where
  view : String
  returnsList : Bool
  rows : List EntityRow

/-- The adapter, and for each key the read that filled it last. -/
structure System where
  adapter : CachedDatabaseAdapter
  origin : Key → Option Fill

/-- Reads and mutations, the evictions the store decides on, and the listener calls. -/
inductive Step where
  | read (r : Read)
  | mutate (mutationDef : MutationDefinition) (outcome : MutationOutcome)
  | evict (key : Key)
  | notify (i : Nat)

/-- The columns of an answer, as the cache sees them. -/
def Read.columns (r : Read) : Except FraiseQLError (List Json) :=
  r.answer.map fun rows => rows.map (·.data)

/-- What a read hands to the cache: the answer of a missed read that succeeded. -/
def Read.fill? (r : Read) (adapter : CachedDatabaseAdapter) : Option Fill :=
  if adapter.usesCache r.view && (adapter.cache.live r.key).isNone then
    r.answer.toOption.map fun rows => ⟨r.view, r.returnsList, rows⟩
  else none

/-- The origins after a read. -/
def record (origin : Key → Option Fill) (key : Key) : Option Fill → Key → Option Fill
  | some f => Function.update origin key (some f)
  | none => origin

theorem record_other (origin : Key → Option Fill) (key k : Key) (f : Option Fill)
    (hother : f = none ∨ k ≠ key) : record origin key f k = origin k := by
  cases f with
  | none => rfl
  | some f =>
    rcases hother with hnone | hne
    · cases hnone
    · exact Function.update_of_ne hne _ _

def enabledConfig : CacheConfig := { CacheConfig.default with enabled := true }

def userRead (returnsList : Bool) (rows : List EntityRow) : Read :=
  ⟨0, 1, "v_user", returnsList, .ok rows⟩

def asciiUppercase (c : Char) : List Char := [c.toUpper]

section Runs

variable (toUppercase : Char → List Char) (types : List TypeSource)

/-- The state after one step. -/
def step (s : System) : Step → System
  | .read r =>
    { adapter := (s.adapter.executeCached toUppercase r.now r.key r.view r.columns).2
      origin := record s.origin r.key (r.fill? s.adapter) }
  | .mutate mutationDef outcome =>
    { s with adapter := s.adapter.afterMutation types mutationDef outcome }
  | .evict key => { s with adapter.cache := s.adapter.cache.storeInvalidate key }
  | .notify i => { s with adapter.cache := s.adapter.cache.notify i }

/-- The state after a sequence of steps. -/
def runFrom (s : System) (steps : List Step) : System := steps.foldl (step toUppercase types) s

/-- A new adapter over an empty cache. -/
def start (config : CacheConfig) (viewTtlOverrides : AList (fun _ : String => UInt64))
    (cacheableViews : List String) (optInMode : Bool) (cascadeInvalidator : Option CascadeInvalidator) :
    System where
  adapter := ⟨CacheResult.new config, viewTtlOverrides, cacheableViews, optInMode, cascadeInvalidator⟩
  origin := fun _ => none

/-! ### The cache calls of a step -/

/-- The call of the entity-aware path. -/
def entityCalls : Option String → Option String → List Op
  | some entityType, some entityId => [.invalidateByEntity entityType entityId]
  | _, _ => []

/-- The call of the view-level path. -/
def declaredCalls (adapter : CachedDatabaseAdapter) (mutationDef : MutationDefinition)
    (entityId : Option String) : List Op :=
  if (entityId.isNone || !mutationDef.invalidatesViews.isEmpty) &&
      !(viewsToInvalidate types mutationDef).isEmpty then
    if entityId.isNone then [.invalidateListQueries (adapter.expand (viewsToInvalidate types mutationDef)).1]
    else [.invalidateViews (adapter.expand (viewsToInvalidate types mutationDef)).1]
  else []

/-- The put of a fill. -/
def fillCall (adapter : CachedDatabaseAdapter) (r : Read) (f : Fill) : Op :=
  .put r.now r.key (f.rows.map (·.data)) [f.view] (adapter.viewTtlOverrides.lookup f.view)
    (viewNameToEntityType toUppercase f.view)

/-- The get of a read, and the put of one that fills. -/
def readCalls (adapter : CachedDatabaseAdapter) (r : Read) : List Op :=
  if adapter.usesCache r.view then
    .get r.key :: (r.fill? adapter).toList.map (fillCall toUppercase adapter r)
  else []

def calls (adapter : CachedDatabaseAdapter) : Step → List Op
  | .read r => readCalls toUppercase adapter r
  | .mutate mutationDef (.success entityType entityId) =>
    entityCalls entityType entityId ++ declaredCalls types adapter mutationDef entityId
  | .mutate _ .error => []
  | .evict key => [.evict key]
  | .notify i => [.notify i]

section

variable (adapter : CachedDatabaseAdapter)
include adapter

theorem read_cache (r : Read) : (adapter.executeCached toUppercase r.now r.key r.view r.columns).2.cache =
      (readCalls toUppercase adapter r).foldl CacheResult.step adapter.cache := by
  unfold executeCached readCalls
  by_cases huses : adapter.usesCache r.view = true
  · rw [if_neg (by simp [huses]), if_pos huses]
    have hget := get_fst (usesCache_enabled huses) r.key
    cases hlive : adapter.cache.live r.key with
    | some e =>
      simp [lookup, hget, hlive, Read.fill?, CacheResult.step]
    | none =>
      simp only [lookup, hget, hlive, map_none]
      cases hanswer : r.answer with
      | error e =>
        simp [Read.columns, hanswer, Except.map, Read.fill?, Except.toOption, CacheResult.step]
      | ok rows =>
        simp [Read.columns, hanswer, Except.map, Read.fill?, huses, hlive, Except.toOption,
          CacheResult.step, fill, fillCall]
  · rw [if_pos (by simp [huses]), if_neg huses]
    rfl

theorem invalidateEntity_cache (entityType entityId : Option String) :
    (adapter.invalidateEntity entityType entityId).cache =
      (entityCalls entityType entityId).foldl CacheResult.step adapter.cache := by
  cases entityType with
  | none => rfl
  | some t =>
    cases entityId with
    | none => rfl
    | some id => rfl

theorem invalidateEntity_expand (entityType entityId : Option String) (views : List String) :
    ((adapter.invalidateEntity entityType entityId).expand views).1 = (adapter.expand views).1 := by
  have hsame : (adapter.invalidateEntity entityType entityId).cascadeInvalidator =
      adapter.cascadeInvalidator := by
    cases entityType with
    | none => rfl
    | some t =>
      cases entityId with
      | none => rfl
      | some id => rfl
  unfold expand
  rw [hsame]
  cases adapter.cascadeInvalidator with
  | none => rfl
  | some c => rfl

theorem invalidateDeclared_cache (mutationDef : MutationDefinition) (entityId : Option String) :
    (adapter.invalidateDeclared types mutationDef entityId).cache =
      (declaredCalls types adapter mutationDef entityId).foldl CacheResult.step adapter.cache := by
  unfold invalidateDeclared declaredCalls
  by_cases hpath : (entityId.isNone || !mutationDef.invalidatesViews.isEmpty) = true
  · simp only [hpath, if_true, Bool.true_and]
    by_cases hviews : (viewsToInvalidate types mutationDef).isEmpty = true
    · simp [hviews]
    · simp only [hviews, Bool.false_eq_true, if_false, Bool.not_false, if_true]
      by_cases hid : entityId.isNone = true
      · rw [if_pos hid, if_pos hid]
        exact invalidateListQueries_cache adapter _
      · rw [if_neg hid, if_neg hid]
        exact invalidateViews_cache adapter _
  · simp [hpath]

end

/-- A step changes the cache by its calls. -/
theorem step_cache (s : System) (st : Step) :
    (step toUppercase types s st).adapter.cache =
      (calls toUppercase types s.adapter st).foldl CacheResult.step s.adapter.cache := by
  cases st with
  | read r => exact read_cache toUppercase s.adapter r
  | mutate mutationDef outcome =>
    cases outcome with
    | error => rfl
    | success entityType entityId =>
      unfold step afterMutation calls
      rw [List.foldl_append, ← invalidateEntity_cache, invalidateDeclared_cache]
      unfold declaredCalls
      rw [invalidateEntity_expand]
  | evict key => rfl
  | notify i => rfl

/-! ### The invariant -/

/-- An entry is what `put_arc` built of the rows of a fill. -/
structure StoredAs (f : Fill) (e : CachedResult) : Prop where
  views : e.accessedViews = [f.view]
  refs : e.entityRefs =
    QueryResultCache.entityRefsOf (f.rows.map (·.data)) (viewNameToEntityType toUppercase f.view)
  list : e.isListQuery = decide (1 < f.rows.length)

/-- The indexes cover the store, and every live entry is what its origin stored. -/
structure Sound (s : System) : Prop where
  inv : Inv s.adapter.cache
  lists : ListIndexed s.adapter.cache
  filled : ∀ key e, s.adapter.cache.live key = some e →
    ∃ f, s.origin key = some f ∧ StoredAs toUppercase f e

theorem sound_start (config : CacheConfig) (viewTtlOverrides : AList (fun _ : String => UInt64))
    (cacheableViews : List String) (optInMode : Bool) (cascadeInvalidator : Option CascadeInvalidator) :
    Sound toUppercase (start config viewTtlOverrides cacheableViews optInMode cascadeInvalidator) where
  inv := inv_new config
  lists := listIndexed_new config
  filled := by
    intro key e hlive
    rw [show (start config viewTtlOverrides cacheableViews optInMode cascadeInvalidator).adapter.cache =
      new config from rfl] at hlive
    simp [new, live] at hlive

theorem get_live (c : QueryResultCache) (key k : Key) : (c.get key).2.live k = c.live k := by
  unfold QueryResultCache.get
  split_ifs
  · rfl
  · cases c.live key with
    | none => rfl
    | some e => rfl

theorem fill?_missed {adapter : CachedDatabaseAdapter} {r : Read} {f : Fill}
    (hfill : r.fill? adapter = some f) : adapter.cache.live r.key = none := by
  unfold Read.fill? at hfill
  split_ifs at hfill with hmiss
  exact isNone_iff_eq_none.mp (Bool.and_eq_true _ _ ▸ hmiss).2

/-- An entry that is live after a read was live before it, under a key the read did not fill, or is what
the read stored. -/
theorem read_live (adapter : CachedDatabaseAdapter) (r : Read) (k : Key) (e : CachedResult)
    (hlive : ((readCalls toUppercase adapter r).foldl CacheResult.step adapter.cache).live k = some e) :
    (adapter.cache.live k = some e ∧ (r.fill? adapter = none ∨ k ≠ r.key)) ∨
      ∃ f, r.fill? adapter = some f ∧ k = r.key ∧ StoredAs toUppercase f e := by
  unfold readCalls at hlive
  by_cases huses : adapter.usesCache r.view = true
  · rw [if_pos huses] at hlive
    cases hfill : r.fill? adapter with
    | none =>
      rw [hfill] at hlive
      have hsame : (adapter.cache.get r.key).2.live k = some e := hlive
      rw [get_live] at hsame
      exact .inl ⟨hsame, .inl rfl⟩
    | some f =>
      rw [hfill] at hlive
      set c := (adapter.cache.get r.key).2 with hc
      have hput : (c.putArc r.now r.key (f.rows.map (·.data)) [f.view]
          (adapter.viewTtlOverrides.lookup f.view) (viewNameToEntityType toUppercase f.view)).live k =
            some e := hlive
      have hmissed : c.live r.key = none := by rw [hc, get_live, fill?_missed hfill]
      by_cases hadmits : c.admits (f.rows.map (·.data)) = true
      · obtain ⟨-, hlives, -, -, -⟩ := putArc_admitted c r.now r.key (f.rows.map (·.data)) [f.view]
          (adapter.viewTtlOverrides.lookup f.view) (viewNameToEntityType toUppercase f.view) hadmits
        rw [hlives] at hput
        split_ifs at hput with hk
        · obtain rfl := some.inj hput
          refine .inr ⟨f, rfl, hk, rfl, rfl, ?_⟩
          simp [entryOf]
        · rw [hc, get_live] at hput
          exact .inl ⟨hput, .inr hk⟩
      · unfold putArc at hput
        rw [if_neg hadmits] at hput
        have hk : k ≠ r.key := by
          rintro rfl
          rw [hmissed] at hput
          cases hput
        rw [hc, get_live] at hput
        exact .inl ⟨hput, .inr hk⟩
  · rw [if_neg huses] at hlive
    refine .inl ⟨hlive, .inl ?_⟩
    simp [Read.fill?, huses]

theorem entityCalls_shrinks (c : QueryResultCache) (entityType entityId : Option String) :
    Shrinks c ((entityCalls entityType entityId).foldl CacheResult.step c) := by
  cases entityType with
  | none => exact Shrinks.refl c
  | some t =>
    cases entityId with
    | none => exact Shrinks.refl c
    | some id => exact shrinks_invalidateByEntity c t id

theorem declaredCalls_shrinks (c : QueryResultCache) (adapter : CachedDatabaseAdapter)
    (mutationDef : MutationDefinition) (entityId : Option String) :
    Shrinks c ((declaredCalls types adapter mutationDef entityId).foldl CacheResult.step c) := by
  unfold declaredCalls
  split_ifs
  · exact shrinks_invalidateListQueries c _
  · exact shrinks_invalidateViews c _
  · exact Shrinks.refl c

theorem mutate_shrinks (s : System) (mutationDef : MutationDefinition) (outcome : MutationOutcome) :
    Shrinks s.adapter.cache (step toUppercase types s (.mutate mutationDef outcome)).adapter.cache := by
  rw [step_cache]
  cases outcome with
  | error => exact Shrinks.refl _
  | success entityType entityId =>
    unfold calls
    rw [List.foldl_append]
    exact (entityCalls_shrinks _ entityType entityId).trans (declaredCalls_shrinks types _ _ _ _)

theorem notify_live (c : QueryResultCache) (i : Nat) (key : Key) :
    (c.notify i).live key = c.live key := by
  unfold notify
  cases c.notifications[i]? with
  | none => rfl
  | some n => rfl

/-- The read fills its key only when no earlier entry of the key that shares its view or an entity still
waits for its listener call. -/
def FreshFill (s : System) (st : Step) : Prop :=
  Fresh s.adapter.cache (calls toUppercase types s.adapter st)

variable {s : System}

theorem Sound.step (hsound : Sound toUppercase s) (st : Step) (hfresh : FreshFill toUppercase types s st) :
    Sound toUppercase (step toUppercase types s st) where
  inv := by
    rw [step_cache]
    exact inv_foldl hsound.inv _ hfresh
  lists := by
    rw [step_cache]
    exact hsound.lists.foldl hsound.inv _ hfresh
  filled := by
    intro key e hlive
    cases st with
    | read r =>
      rw [step_cache] at hlive
      rcases read_live toUppercase s.adapter r key e hlive with ⟨hlive, hother⟩ | ⟨f, hfill, rfl, hstored⟩
      · obtain ⟨f, horigin, hstored⟩ := hsound.filled key e hlive
        refine ⟨f, ?_, hstored⟩
        rw [← horigin]
        exact record_other s.origin r.key key _ hother
      · refine ⟨f, ?_, hstored⟩
        show record s.origin r.key (r.fill? s.adapter) r.key = some f
        rw [hfill]
        exact Function.update_self _ _ _
    | mutate mutationDef outcome =>
      exact hsound.filled key e ((mutate_shrinks toUppercase types s mutationDef outcome).live key e hlive)
    | evict k => exact hsound.filled key e ((shrinks_storeInvalidate s.adapter.cache k).live key e hlive)
    | notify i =>
      refine hsound.filled key e ?_
      rw [← notify_live s.adapter.cache i]
      exact hlive

/-! ### Runs -/

/-- Every step of a run meets a condition in the state it is taken in. -/
def Along (P : System → Step → Prop) (s : System) : List Step → Prop
  | [] => True
  | st :: steps => P s st ∧ Along P (step toUppercase types s st) steps

variable {toUppercase types}

theorem along_split {P : System → Step → Prop} {pre post : List Step} {st : Step}
    (h : Along toUppercase types P s (pre ++ st :: post)) :
    Along toUppercase types P s pre ∧ P (runFrom toUppercase types s pre) st := by
  induction pre generalizing s with
  | nil => exact ⟨trivial, h.1⟩
  | cons st' pre ih =>
    obtain ⟨hpre, hst⟩ := ih h.2
    exact ⟨⟨h.1, hpre⟩, hst⟩

theorem Sound.run {P : System → Step → Prop} (hP : ∀ s st, P s st → FreshFill toUppercase types s st)
    (hsound : Sound toUppercase s) {steps : List Step}
    (h : Along toUppercase types P s steps) : Sound toUppercase (runFrom toUppercase types s steps) := by
  induction steps generalizing s with
  | nil => exact hsound
  | cons st steps ih => exact ih (hsound.step toUppercase types st (hP s st h.1)) h.2

variable (toUppercase types)

/-! ### Updated and deleted entities -/

def Fill.Includes (f : Fill) (entityType entityId : String) : Prop :=
  ∃ row ∈ f.rows, row.entityType = entityType ∧ row.id = entityId

/-- An entry is live whose rows include the entity. -/
def Serves (s : System) (key : Key) (entityType entityId : String) : Prop :=
  ∃ e f, s.adapter.cache.live key = some e ∧ s.origin key = some f ∧ f.Includes entityType entityId

/-- The name of the view spells the type, and a stored row shows the identifier as a string. -/
def Fill.Shows (f : Fill) (entityType entityId : String) : Prop :=
  viewNameToEntityType toUppercase f.view = some entityType ∧
    ∃ row ∈ f.rows, (row.data.get? "id").bind Json.asStr? = some entityId

/-- A mutation of an entity finds each live entry that includes it under the type and identifier the entry
shows, or under a view it declares. -/
def EntityFound (s : System) : Step → Prop
  | .mutate mutationDef (.success (some entityType) (some entityId)) => ∀ key f,
      (s.adapter.cache.live key).isSome → s.origin key = some f → f.Includes entityType entityId →
        f.Shows toUppercase entityType entityId ∨ Swept s.adapter mutationDef.invalidatesViews f.view
  | _ => True

variable {toUppercase types}

variable {entityId : String}

theorem mem_refs_of_shows {f : Fill} {e : CachedResult} (hstored : StoredAs toUppercase f e)
    {entityType : String} (hshows : f.Shows toUppercase entityType entityId) :
    (entityType, entityId) ∈ e.entityRefs := by
  obtain ⟨htype, row, hrow, hid⟩ := hshows
  rw [hstored.refs, htype]
  refine List.mem_filterMap.mpr ⟨row.data, List.mem_map_of_mem hrow, ?_⟩
  rw [hid]
  rfl

variable {mutationDef : MutationDefinition}

theorem declaredCalls_update {adapter : CachedDatabaseAdapter} (hdeclared : mutationDef.invalidatesViews ≠ []) :
    declaredCalls types adapter mutationDef (some entityId) =
      [.invalidateViews (adapter.expand mutationDef.invalidatesViews).1] := by
  have hviews : viewsToInvalidate types mutationDef = mutationDef.invalidatesViews := by
    unfold viewsToInvalidate
    rw [if_neg (by simpa using hdeclared)]
  unfold declaredCalls
  rw [hviews]
  simp [hdeclared]

theorem not_serves_of_found (hsound : Sound toUppercase s) {entityType : String}
    (hfound : EntityFound toUppercase s (.mutate mutationDef (.success (some entityType) (some entityId))))
    (key : Key) :
    ¬Serves (step toUppercase types s (.mutate mutationDef (.success (some entityType) (some entityId))))
      key entityType entityId := by
  rintro ⟨e, f, hlive, horigin, hincludes⟩
  have hbefore := (mutate_shrinks toUppercase types s _ _).live key e hlive
  obtain ⟨f', horigin', hstored⟩ := hsound.filled key e hbefore
  have hsame : s.origin key = some f := horigin
  rw [horigin'] at hsame
  obtain rfl := some.inj hsame
  have hcache : (step toUppercase types s
      (.mutate mutationDef (.success (some entityType) (some entityId)))).adapter.cache =
        (declaredCalls types s.adapter mutationDef (some entityId)).foldl CacheResult.step
          (s.adapter.cache.invalidateByEntity entityType entityId).2 := by
    rw [step_cache]
    rfl
  rw [hcache] at hlive
  rcases hfound key f' (by rw [hbefore]; rfl) horigin' hincludes with hshows | hswept
  · have hentity := (declaredCalls_shrinks types _ s.adapter mutationDef (some entityId)).live key e hlive
    exact hsound.inv.coherent.afterEntity _ _ key e hentity (mem_refs_of_shows hstored hshows)
  · have hdeclared : mutationDef.invalidatesViews ≠ [] := by
      rintro hnil
      rw [hnil] at hswept
      rcases hswept with hmem | ⟨_, _, _, hmem, _⟩ <;> cases hmem
    rw [declaredCalls_update hdeclared] at hlive
    have hinv := hsound.inv.shrink (shrinks_invalidateByEntity s.adapter.cache entityType entityId)
    refine hinv.coherent.afterViews _ key e hlive f'.view ?_ ((mem_expand s.adapter _ _).mpr hswept)
    rw [hstored.views]
    exact List.mem_singleton_self _

variable (toUppercase types)

/-- In a run of reads and mutations whose fills are fresh, and whose entity mutations find each live entry
that includes their entity, no such entry is served after the mutation. -/
theorem entity_coherent_along_run (config : CacheConfig) (overrides : AList (fun _ : String => UInt64))
    (cacheable : List String) (optIn : Bool) (cascader : Option CascadeInvalidator) (steps : List Step)
    (hmet : Along toUppercase types
      (fun s st => FreshFill toUppercase types s st ∧ EntityFound toUppercase s st)
      (start config overrides cacheable optIn cascader) steps)
    (pre : List Step) (mutationDef : MutationDefinition) (entityType entityId : String)
    (hpre : pre ++ [.mutate mutationDef (.success (some entityType) (some entityId))] <+: steps)
    (key : Key) :
    ¬Serves (runFrom toUppercase types (start config overrides cacheable optIn cascader)
      (pre ++ [.mutate mutationDef (.success (some entityType) (some entityId))])) key entityType entityId := by
  obtain ⟨post, rfl⟩ := hpre
  rw [List.append_assoc, List.singleton_append] at hmet
  obtain ⟨hbefore, -, hfound⟩ := along_split hmet
  have hsound := (sound_start toUppercase config overrides cacheable optIn cascader).run
    (fun _ _ h => h.1) hbefore
  rw [runFrom, List.foldl_append]
  exact not_serves_of_found hsound hfound key

theorem userRead_origin (returnsList : Bool) (rows : List EntityRow) (key : Key) (f : Fill)
    (horigin : (step asciiUppercase [] (start enabledConfig ∅ [] false none)
      (.read (userRead returnsList rows))).origin key = some f) :
    key = 1 ∧ f = ⟨"v_user", returnsList, rows⟩ := by
  have hrecord : Function.update (fun _ => none) 1 (some ⟨"v_user", returnsList, rows⟩) key = some f :=
    horigin
  by_cases hkey : key = 1
  · subst hkey
    rw [Function.update_self] at hrecord
    exact ⟨rfl, (some.inj hrecord).symm⟩
  · rw [Function.update_of_ne hkey] at hrecord
    cases hrecord

/-- A read that keeps the identifier, and an update of the entity after it. -/
theorem entity_coherent_with_id :
    ¬Serves (runFrom asciiUppercase [] (start enabledConfig ∅ [] false none)
      ([.read (userRead false [⟨"User", "u1", .obj [("id", .str "u1"), ("name", .str "Ada")]⟩])] ++
        [.mutate ⟨"User", []⟩ (.success (some "User") (some "u1"))])) 1 "User" "u1" := by
  refine entity_coherent_along_run asciiUppercase [] enabledConfig ∅ [] false none _ ?_
    [.read (userRead false [⟨"User", "u1", .obj [("id", .str "u1"), ("name", .str "Ada")]⟩])] ⟨"User", []⟩ "User" "u1"
    List.prefix_rfl 1
  refine ⟨⟨⟨trivial, ?_, trivial⟩, trivial⟩, ⟨⟨trivial, trivial⟩, ?_⟩, trivial⟩
  · intro _ old hold
    cases hold
  · intro key f _ horigin _
    obtain ⟨rfl, rfl⟩ := userRead_origin _ _ key f horigin
    exact .inl ⟨rfl, _, List.mem_singleton_self _, rfl⟩

/-- A projection that drops the identifier: the update of the entity misses the entry. -/
theorem entity_served_after_update :
    ¬∀ (toUppercase : Char → List Char) (types : List TypeSource) (config : CacheConfig)
      (steps : List Step) (mutationDef : MutationDefinition) (entityType entityId : String) (key : Key),
      ¬Serves (runFrom toUppercase types (start config ∅ [] false none)
        (steps ++ [.mutate mutationDef (.success (some entityType) (some entityId))]))
        key entityType entityId := by
  intro hall
  refine hall asciiUppercase [] enabledConfig [.read (userRead false [⟨"User", "u1", .obj [("name", .str "Ada")]⟩])]
    ⟨"User", []⟩ "User" "u1" 1 ?_
  refine ⟨⟨[.obj [("name", .str "Ada")]], ["v_user"], 0, 86400, [], false⟩,
    ⟨"v_user", false, [⟨"User", "u1", .obj [("name", .str "Ada")]⟩]⟩, ?_, ?_, ?_⟩
  · rfl
  · rfl
  · exact ⟨_, List.mem_singleton_self _, rfl, rfl⟩

/-! ### Created entities -/

/-- An entry is live that a list query over the view stored. -/
def ServesList (s : System) (key : Key) (view : String) : Prop :=
  ∃ e f, s.adapter.cache.live key = some e ∧ s.origin key = some f ∧ f.returnsList = true ∧ f.view = view

/-- A creation finds each live entry of a list query over its views with more than one row. -/
def ListFound (s : System) : Step → Prop
  | .mutate mutationDef (.success _ none) => ∀ key f,
      (s.adapter.cache.live key).isSome → s.origin key = some f → f.returnsList = true →
        Swept s.adapter (viewsToInvalidate types mutationDef) f.view → 1 < f.rows.length
  | _ => True

variable {toUppercase types}

theorem not_servesList_of_found (hsound : Sound toUppercase s) {entityType : Option String}
    (hfound : ListFound types s (.mutate mutationDef (.success entityType none))) {view : String}
    (hswept : Swept s.adapter (viewsToInvalidate types mutationDef) view) (key : Key) :
    ¬ServesList (step toUppercase types s (.mutate mutationDef (.success entityType none))) key view := by
  rintro ⟨e, f, hlive, horigin, hlist, rfl⟩
  have hbefore := (mutate_shrinks toUppercase types s _ _).live key e hlive
  obtain ⟨f', horigin', hstored⟩ := hsound.filled key e hbefore
  have hsame : s.origin key = some f := horigin
  rw [horigin'] at hsame
  obtain rfl := some.inj hsame
  have hrows := hfound key f' (by rw [hbefore]; rfl) horigin' hlist hswept
  have hviews : viewsToInvalidate types mutationDef ≠ [] := by
    intro hnil
    rw [hnil] at hswept
    rcases hswept with hmem | ⟨_, _, _, hmem, _⟩ <;> cases hmem
  have hcalls : calls toUppercase types s.adapter (.mutate mutationDef (.success entityType none)) =
      [.invalidateListQueries (s.adapter.expand (viewsToInvalidate types mutationDef)).1] := by
    cases entityType with
    | none | some t => simp [calls, entityCalls, declaredCalls, hviews]
  rw [step_cache, hcalls] at hlive
  refine hsound.lists.afterLists hsound.inv _ key e hlive ?_ f'.view ?_ ((mem_expand _ _ _).mpr hswept)
  · rw [hstored.list]
    exact decide_eq_true hrows
  · rw [hstored.views]
    exact List.mem_singleton_self _

variable (toUppercase types)

/-- In a run of reads and mutations whose fills are fresh, and whose creations find the live entries of list
queries over their views with more than one row, no such entry is served after the creation. -/
theorem list_coherent_along_run (config : CacheConfig) (overrides : AList (fun _ : String => UInt64))
    (cacheable : List String) (optIn : Bool) (cascader : Option CascadeInvalidator) (steps : List Step)
    (hmet : Along toUppercase types (fun s st => FreshFill toUppercase types s st ∧ ListFound types s st)
      (start config overrides cacheable optIn cascader) steps)
    (pre : List Step) (mutationDef : MutationDefinition) (entityType : Option String)
    (hpre : pre ++ [.mutate mutationDef (.success entityType none)] <+: steps) (view : String)
    (hswept : Swept (runFrom toUppercase types (start config overrides cacheable optIn cascader) pre).adapter
      (viewsToInvalidate types mutationDef) view) (key : Key) :
    ¬ServesList (runFrom toUppercase types (start config overrides cacheable optIn cascader)
      (pre ++ [.mutate mutationDef (.success entityType none)])) key view := by
  obtain ⟨post, rfl⟩ := hpre
  rw [List.append_assoc, List.singleton_append] at hmet
  obtain ⟨hbefore, -, hfound⟩ := along_split hmet
  have hsound := (sound_start toUppercase config overrides cacheable optIn cascader).run
    (fun _ _ h => h.1) hbefore
  rw [runFrom, List.foldl_append]
  exact not_servesList_of_found hsound hfound hswept key

/-- A list of two rows, and a creation in its view after it. -/
theorem list_coherent_two_rows :
    ¬ServesList (runFrom asciiUppercase [] (start enabledConfig ∅ [] false none)
      ([.read (userRead true [⟨"User", "u1", .obj [("id", .str "u1")]⟩, ⟨"User", "u2", .obj [("id", .str "u2")]⟩])] ++
        [.mutate ⟨"User", ["v_user"]⟩ (.success (some "User") none)])) 1 "v_user" := by
  refine list_coherent_along_run asciiUppercase [] enabledConfig ∅ [] false none _ ?_
    [.read (userRead true [⟨"User", "u1", .obj [("id", .str "u1")]⟩, ⟨"User", "u2", .obj [("id", .str "u2")]⟩])]
    ⟨"User", ["v_user"]⟩ (some "User") List.prefix_rfl "v_user" ?_ 1
  · refine ⟨⟨⟨trivial, ?_, trivial⟩, trivial⟩, ⟨⟨trivial, trivial⟩, ?_⟩, trivial⟩
    · intro _ old hold
      cases hold
    · intro key f _ horigin _ _
      obtain ⟨rfl, rfl⟩ := userRead_origin _ _ key f horigin
      show 1 < 2
      omega
  · exact .inl (List.mem_singleton_self _)

/-- A list of one row, and a creation in its view after it. -/
theorem list_served_after_create :
    ¬∀ (toUppercase : Char → List Char) (types : List TypeSource) (config : CacheConfig)
      (steps : List Step) (mutationDef : MutationDefinition) (entityType : Option String) (view : String)
      (key : Key), view ∈ viewsToInvalidate types mutationDef →
      ¬ServesList (runFrom toUppercase types (start config ∅ [] false none)
        (steps ++ [.mutate mutationDef (.success entityType none)])) key view := by
  intro hall
  refine hall asciiUppercase [] enabledConfig
    [.read (userRead true [⟨"User", "u1", .obj [("id", .str "u1")]⟩])] ⟨"User", ["v_user"]⟩ (some "User") "v_user" 1 ?_ ?_
  · exact List.mem_singleton_self _
  · refine ⟨⟨[.obj [("id", .str "u1")]], ["v_user"], 0, 86400, [("User", "u1")], false⟩,
      ⟨"v_user", true, [⟨"User", "u1", .obj [("id", .str "u1")]⟩]⟩, ?_, ?_, rfl, rfl⟩
    · rfl
    · rfl

end Runs

end FraiseQL.CacheAdapter
