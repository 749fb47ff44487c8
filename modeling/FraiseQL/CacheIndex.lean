import FraiseQL.CacheResult
import FraiseQL.EventRun
import Mathlib.Data.List.Dedup

/-! Coherence of the cache indexes over whole runs. A key that is written again while an earlier entry of
it is live, or waits for its listener call, is registered first and unregistered afterwards by the call for
the earlier entry. The indexes therefore cover the store along a run, whatever listener calls follow,
exactly when no stored result shares a view or an entity reference with such an earlier entry. -/

namespace FraiseQL.CacheResult

open QueryResultCache List Option

/-- Every live key is registered under each view and each entity reference of its entry. -/
structure Indexed (c : QueryResultCache) : Prop where
  views : ∀ key e, c.live key = some e → ∀ v ∈ e.accessedViews, key ∈ c.viewIndex.members v
  refs : ∀ key e, c.live key = some e → ∀ r ∈ e.entityRefs, key ∈ c.entityIndex.members r

/-- The indexes cover the store, and an invalidation leaves no live entry of its target. -/
structure Coherent (c : QueryResultCache) : Prop extends Indexed c where
  afterViews : ∀ vs key e, (c.invalidateViews vs).2.live key = some e → ∀ v ∈ e.accessedViews, v ∉ vs
  afterEntity : ∀ t id key e, (c.invalidateByEntity t id).2.live key = some e → (t, id) ∉ e.entityRefs

/-- The entries of a key that the listener will still be called with once the key is written again: the
live one, and the removed ones that wait. -/
def QueryResultCache.outgoing (c : QueryResultCache) (key : Key) : List CachedResult :=
  (c.live key).toList ++ (c.notifications.filter fun n => n.1 = key).map (·.2)

/-- No view and no entity reference in common. -/
def Apart (a b : CachedResult) : Prop :=
  a.accessedViews.Disjoint b.accessedViews ∧ a.entityRefs.Disjoint b.entityRefs

/-- A stored result shares no view and no entity reference with an outgoing entry of its key. -/
def FreshStep (c : QueryResultCache) : Op → Prop
  | .put now key result views ttl entityType => c.admits result = true →
      ∀ old ∈ c.outgoing key, Apart (c.entryOf now result views ttl entityType) old
  | _ => True

/-- Every step of the run is fresh in the state it is taken in. -/
def Fresh : QueryResultCache → List Op → Prop
  | _, [] => True
  | c, op :: ops => FreshStep c op ∧ Fresh (step c op) ops

/-! ### The invariant -/

/-- The indexes cover the store, a removed entry that waits shares nothing with the live entry of its key,
and a disabled cache holds nothing. -/
structure Inv (c : QueryResultCache) : Prop extends Indexed c where
  apart : ∀ key e old, c.live key = some e → (key, old) ∈ c.notifications → Apart e old
  disabled : c.config.enabled = false → ∀ key, c.live key = none

theorem inv_new (config : CacheConfig) : Inv (new config) where
  views := by simp [new, live]
  refs := by simp [new, live]
  apart := by simp [new, live]
  disabled := by simp [new, live]

/-- The store lost some entries, which now wait for the listener; nothing else that is indexed changed. -/
structure Shrinks (c c' : QueryResultCache) : Prop where
  config : c'.config = c.config
  viewIndex : c'.viewIndex = c.viewIndex
  entityIndex : c'.entityIndex = c.entityIndex
  live : ∀ key e, c'.live key = some e → c.live key = some e
  waits : ∀ key old, (key, old) ∈ c'.notifications →
    (key, old) ∈ c.notifications ∨ c'.live key = none

theorem Shrinks.refl (c : QueryResultCache) : Shrinks c c :=
  ⟨rfl, rfl, rfl, fun _ _ h => h, fun _ _ h => .inl h⟩

variable {c : QueryResultCache}

theorem Shrinks.trans {c' c'' : QueryResultCache} (h : Shrinks c c') (h' : Shrinks c' c'') : Shrinks c c'' where
  config := h'.config.trans h.config
  viewIndex := h'.viewIndex.trans h.viewIndex
  entityIndex := h'.entityIndex.trans h.entityIndex
  live := fun key e hlive => h.live key e (h'.live key e hlive)
  waits := by
    intro key old hwait
    rcases h'.waits key old hwait with hwait | hnone
    · rcases h.waits key old hwait with hwait | hnone
      · exact .inl hwait
      · right
        cases hlive : c''.live key with
        | none => rfl
        | some e =>
          rw [h'.live key e hlive] at hnone
          cases hnone
    · exact .inr hnone

theorem Inv.shrink {c' : QueryResultCache} (hinv : Inv c) (h : Shrinks c c') : Inv c' where
  views := by
    intro key e hlive
    rw [h.viewIndex]
    exact hinv.views key e (h.live key e hlive)
  refs := by
    intro key e hlive
    rw [h.entityIndex]
    exact hinv.refs key e (h.live key e hlive)
  apart := by
    intro key e old hlive hwait
    rcases h.waits key old hwait with hwait | hnone
    · exact hinv.apart key e old (h.live key e hlive) hwait
    · rw [hlive] at hnone
      cases hnone
  disabled := by
    intro hoff key
    rw [h.config] at hoff
    cases hlive : c'.live key with
    | none => rfl
    | some e =>
      rw [← h.live key e hlive]
      exact hinv.disabled hoff key

theorem storeInvalidate_live (c : QueryResultCache) (key k : Key) :
    (c.storeInvalidate key).live k = if k = key then none else c.live k := by
  by_cases hk : k = key
  · subst hk
    simp [storeInvalidate, live]
  · rw [if_neg hk]
    exact AList.lookup_erase_ne hk

theorem shrinks_storeInvalidate (c : QueryResultCache) (key : Key) :
    Shrinks c (c.storeInvalidate key) := by
  refine ⟨rfl, rfl, rfl, ?_, ?_⟩
  · intro k e hlive
    rw [storeInvalidate_live] at hlive
    split_ifs at hlive with hk
    exact hlive
  · intro k old hwait
    rcases mem_append.mp hwait with hwait | hwait
    · exact .inl hwait
    · obtain ⟨e, _, heq⟩ := mem_map.mp hwait
      right
      rw [storeInvalidate_live, if_pos (Prod.ext_iff.mp heq).1.symm]

theorem shrinks_foldl (keys : List Key) (c : QueryResultCache) :
    Shrinks c (keys.foldl storeInvalidate c) := by
  induction keys generalizing c with
  | nil => exact Shrinks.refl c
  | cons key keys ih => exact (shrinks_storeInvalidate c key).trans (ih _)

theorem foldl_live (keys : List Key) (c : QueryResultCache) (k : Key) :
    (keys.foldl storeInvalidate c).live k = if k ∈ keys then none else c.live k := by
  induction keys generalizing c with
  | nil => simp
  | cons key keys ih =>
    rw [foldl_cons, ih, storeInvalidate_live]
    by_cases hk : k = key <;> simp [hk]

section

variable (c : QueryResultCache)

theorem shrinks_invalidateKeys (keys : List Key) : Shrinks c (c.invalidateKeys keys).2 :=
  (shrinks_foldl keys c).trans ⟨rfl, rfl, rfl, fun _ _ h => h, fun _ _ h => .inl h⟩

theorem invalidateKeys_live (keys : List Key) (k : Key) :
    (c.invalidateKeys keys).2.live k = if k ∈ keys then none else c.live k :=
  foldl_live keys c k

theorem shrinks_invalidateViews (views : List String) : Shrinks c (c.invalidateViews views).2 := by
  unfold invalidateViews
  split_ifs
  · exact Shrinks.refl c
  · exact shrinks_invalidateKeys c _

theorem shrinks_invalidateListQueries (views : List String) : Shrinks c (c.invalidateListQueries views).2 := by
  unfold invalidateListQueries
  split_ifs
  · exact Shrinks.refl c
  · exact shrinks_invalidateKeys c _

theorem shrinks_invalidateByEntity (t id : String) : Shrinks c (c.invalidateByEntity t id).2 := by
  unfold invalidateByEntity
  split_ifs
  · exact Shrinks.refl c
  · exact Shrinks.refl c
  · exact shrinks_invalidateKeys c _

theorem shrinks_get (key : Key) : Shrinks c (c.get key).2 := by
  unfold QueryResultCache.get
  split_ifs
  · exact Shrinks.refl c
  · cases c.live key with
    | none | some cached => exact ⟨rfl, rfl, rfl, fun _ _ h => h, fun _ _ h => .inl h⟩

theorem clear_live (key : Key) : c.clear.live key = none := by
  simp [clear, storeInvalidateAll, live]

end

theorem Inv.clear : Inv c.clear where
  views := by simp [clear_live]
  refs := by simp [clear_live]
  apart := by simp [clear_live]
  disabled := fun _ key => clear_live c key

/-- The listener call for a removed entry leaves the registrations of a live entry apart from it. -/
theorem Inv.notify (hinv : Inv c) (i : Nat) : Inv (c.notify i) := by
  unfold QueryResultCache.notify
  cases hi : c.notifications[i]? with
  | none => exact hinv
  | some n =>
    obtain ⟨k, old⟩ := n
    have hwait : (k, old) ∈ c.notifications := mem_of_getElem? hi
    refine ⟨⟨?_, ?_⟩, ?_, hinv.disabled⟩
    · intro key e hlive v hv
      refine SetMap.mem_members_removeAll.mpr ⟨hinv.views key e hlive v hv, ?_⟩
      rintro ⟨hold, rfl⟩
      exact (hinv.apart key e old hlive hwait).1 hv hold
    · intro key e hlive r hr
      refine SetMap₂.mem_members_removeAll.mpr ⟨hinv.refs key e hlive r hr, ?_⟩
      rintro ⟨hold, rfl⟩
      exact (hinv.apart key e old hlive hwait).2 hr hold
    · intro key e old' hlive hwait'
      exact hinv.apart key e old' hlive (mem_of_mem_eraseIdx hwait')

/-! ### Writing an entry -/

theorem mem_outgoing (c : QueryResultCache) (key : Key) (old : CachedResult) :
    old ∈ c.outgoing key ↔ c.live key = some old ∨ (key, old) ∈ c.notifications := by
  unfold outgoing
  rw [mem_append, mem_toList]
  refine or_congr_right ?_
  rw [List.mem_map]
  constructor
  · rintro ⟨⟨k, o⟩, hmem, rfl⟩
    obtain ⟨hmem, hk⟩ := mem_filter.mp hmem
    rw [← of_decide_eq_true hk]
    exact hmem
  · exact fun hmem => ⟨(key, old), mem_filter.mpr ⟨hmem, decide_eq_true rfl⟩, rfl⟩

section Put

variable (c : QueryResultCache) (now : UInt64) (key : Key) (result : List Json) (views : List String)
  (ttl : Option UInt64) (entityType : Option String)

/-- What a stored result leaves: the entry is live and registered, the outgoing entries of its key wait. -/
theorem putArc_admitted (hadmits : c.admits result = true) :
    let value := c.entryOf now result views ttl entityType
    let c' := c.putArc now key result views ttl entityType
    c'.config = c.config ∧
    (∀ k, c'.live k = if k = key then some value else c.live k) ∧
    (∀ k old, (k, old) ∈ c'.notifications ↔
      (k, old) ∈ c.notifications ∨ (k = key ∧ c.live key = some old)) ∧
    c'.viewIndex = c.viewIndex.addAll value.accessedViews key ∧
    c'.entityIndex = c.entityIndex.addAll value.entityRefs key := by
  unfold putArc
  rw [if_pos hadmits]
  refine ⟨rfl, ?_, ?_, rfl, rfl⟩
  · intro k
    by_cases hk : k = key
    · subst hk
      rw [if_pos rfl]
      exact AList.lookup_insert _
    · rw [if_neg hk]
      exact AList.lookup_insert_ne hk
  · intro k old
    show (k, old) ∈ c.notifications ++ (c.live key).toList.map (key, ·) ↔ _
    rw [mem_append, List.mem_map]
    refine or_congr_right ?_
    constructor
    · rintro ⟨e, he, heq⟩
      obtain ⟨rfl, rfl⟩ := Prod.mk.inj heq
      exact ⟨rfl, mem_toList.mp he⟩
    · rintro ⟨rfl, hlive⟩
      exact ⟨old, mem_toList.mpr hlive, rfl⟩

theorem Inv.putArc {c : QueryResultCache} (hinv : Inv c)
    (hfresh : FreshStep c (.put now key result views ttl entityType)) :
    Inv (c.putArc now key result views ttl entityType) := by
  by_cases hadmits : c.admits result = true
  · obtain ⟨hconfig, hlive, hwaits, hviews, hrefs⟩ :=
      putArc_admitted c now key result views ttl entityType hadmits
    have hon : c.config.enabled = true := by
      simp only [admits, Bool.and_eq_true] at hadmits
      exact hadmits.1.1.1
    refine ⟨⟨?_, ?_⟩, ?_, ?_⟩
    · intro k e he v hv
      rw [hlive] at he
      rw [hviews, SetMap.mem_members_addAll]
      split_ifs at he with hk
      · obtain rfl := some.inj he
        exact .inl ⟨hv, hk⟩
      · exact .inr (hinv.views k e he v hv)
    · intro k e he r hr
      rw [hlive] at he
      rw [hrefs, SetMap₂.mem_members_addAll]
      split_ifs at he with hk
      · obtain rfl := some.inj he
        exact .inl ⟨hr, hk⟩
      · exact .inr (hinv.refs k e he r hr)
    · intro k e old he hwait
      rw [hlive] at he
      rw [hwaits] at hwait
      split_ifs at he with hk
      · subst hk
        obtain rfl := some.inj he
        refine hfresh hadmits old ((mem_outgoing c k old).mpr ?_)
        rcases hwait with hwait | ⟨_, hold⟩
        · exact .inr hwait
        · exact .inl hold
      · rcases hwait with hwait | ⟨hkey, _⟩
        · exact hinv.apart k e old he hwait
        · exact absurd hkey hk
    · intro hoff
      rw [hconfig, hon] at hoff
      cases hoff
  · unfold QueryResultCache.putArc
    rw [if_neg hadmits]
    exact hinv

/-- A result stored over an outgoing entry it shares something with loses a registration as soon as the
listener is called with that entry. -/
theorem not_indexed_of_not_fresh
    (hstale : ¬FreshStep c (.put now key result views ttl entityType)) :
    ∃ i, ¬Indexed ((c.putArc now key result views ttl entityType).notify i) := by
  simp only [FreshStep, not_forall] at hstale
  obtain ⟨hadmits, old, hold, hshare⟩ := hstale
  obtain ⟨-, hlive, hwaits, -, -⟩ := putArc_admitted c now key result views ttl entityType hadmits
  set value := c.entryOf now result views ttl entityType
  set c' := c.putArc now key result views ttl entityType
  have hwait : (key, old) ∈ c'.notifications := by
    rw [hwaits]
    rcases (mem_outgoing c key old).mp hold with hold | hold
    · exact .inr ⟨rfl, hold⟩
    · exact .inl hold
  obtain ⟨i, hi⟩ := mem_iff_getElem?.mp hwait
  have hstate : c'.notify i =
      { c'.evictionListener key old with notifications := c'.notifications.eraseIdx i } := by
    unfold notify
    rw [hi]
  have hvalue : (c'.notify i).live key = some value := by
    rw [hstate]
    show c'.live key = some value
    rw [hlive, if_pos rfl]
  refine ⟨i, fun hindexed => hshare ⟨?_, ?_⟩⟩
  · intro v hv hv'
    have hmem := hindexed.views key value hvalue v hv
    rw [hstate] at hmem
    exact (SetMap.mem_members_removeAll.mp hmem).2 ⟨hv', rfl⟩
  · intro r hr hr'
    have hmem := hindexed.refs key value hvalue r hr
    rw [hstate] at hmem
    exact (SetMap₂.mem_members_removeAll.mp hmem).2 ⟨hr', rfl⟩

end Put

/-! ### Runs -/

theorem inv_step (hinv : Inv c) (op : Op) (hfresh : FreshStep c op) : Inv (step c op) := by
  cases op with
  | put now key result views ttl entityType => exact hinv.putArc now key result views ttl entityType hfresh
  | get key => exact hinv.shrink (shrinks_get c key)
  | invalidateViews views => exact hinv.shrink (shrinks_invalidateViews c views)
  | invalidateListQueries views => exact hinv.shrink (shrinks_invalidateListQueries c views)
  | invalidateByEntity t id => exact hinv.shrink (shrinks_invalidateByEntity c t id)
  | clear => exact Inv.clear
  | evict key => exact hinv.shrink (shrinks_storeInvalidate c key)
  | notify i => exact hinv.notify i

theorem fresh_iff_along (ops : List Op) : Fresh c ops ↔ EventRun.Along step FreshStep c ops := by
  induction ops generalizing c with
  | nil => rfl
  | cons op ops ih => exact and_congr_right fun _ => ih

theorem inv_foldl (hinv : Inv c) (ops : List Op) (hfresh : Fresh c ops) : Inv (ops.foldl step c) := by
  have hstep : ∀ c op, Inv c → FreshStep c op → Inv (step c op) := fun _ op h => inv_step h op
  exact EventRun.Along.invariant hstep ((fresh_iff_along ops).mp hfresh) hinv

theorem Inv.coherent (hinv : Inv c) : Coherent c where
  toIndexed := hinv.toIndexed
  afterViews := by
    intro vs key e hlive v hv hvs
    have hbefore := (shrinks_invalidateViews c vs).live key e hlive
    unfold invalidateViews at hlive
    by_cases hon : c.config.enabled = true
    · rw [if_neg (by simp [hon]), invalidateKeys_live, if_pos] at hlive
      · cases hlive
      · exact mem_dedup.mpr (mem_flatMap.mpr ⟨v, hvs, hinv.views key e hbefore v hv⟩)
    · rw [hinv.disabled (Bool.not_eq_true _ ▸ hon) key] at hbefore
      cases hbefore
  afterEntity := by
    intro t id key e hlive href
    have hbefore := (shrinks_invalidateByEntity c t id).live key e hlive
    have hmem := hinv.refs key e hbefore (t, id) href
    unfold invalidateByEntity at hlive
    by_cases hon : c.config.enabled = true
    · have hsome : ¬(c.entityIndex.lookup t).isNone = true := by
        intro hnone
        rw [SetMap₂.members_eq_nil_of_lookup_none (isNone_iff_eq_none.mp hnone)] at hmem
        cases hmem
      rw [if_neg (by simp [hon]), if_neg hsome, invalidateKeys_live, if_pos hmem] at hlive
      cases hlive
    · rw [hinv.disabled (Bool.not_eq_true _ ▸ hon) key] at hbefore
      cases hbefore

/-- The indexes stay coherent in every state of a run, whatever waiting listener calls come next, exactly
when every stored result is fresh. -/
theorem coherent_along_run_iff (config : CacheConfig) (ops : List Op) :
    (∀ pre, pre <+: ops → ∀ is : List Nat, Coherent (run config (pre ++ is.map .notify))) ↔
      Fresh (new config) ops := by
  rw [fresh_iff_along]
  have hstep : ∀ c op, Inv c → FreshStep c op → Inv (step c op) := fun _ op h => inv_step h op
  refine EventRun.along_iff_paused hstep (fun _ => Inv.coherent) ?_ ?_ (inv_new config)
  · exact fun _ _ => trivial
  intro c op hstale
  cases op with
  | put now key result views ttl entityType =>
    obtain ⟨i, hi⟩ := not_indexed_of_not_fresh c now key result views ttl entityType hstale
    exact ⟨i, fun hcoherent => hi hcoherent.toIndexed⟩
  | _ => exact absurd trivial hstale

/-- A second put of the same query result over its live entry: the listener call for the first entry
unregisters the key, and the invalidation of its view misses it. -/
theorem reput_survives_invalidation :
    ¬∀ (config : CacheConfig) (ops : List Op), Coherent (run config ops) := by
  intro hall
  have hcoherent := hall { CacheConfig.default with enabled := true }
    [.put 0 1 [.obj [("id", .str "u1")]] ["v_user"] none (some "User"),
     .put 5 1 [.obj [("id", .str "u1")]] ["v_user"] none (some "User"), .notify 0]
  refine hcoherent.afterViews ["v_user"] 1
    ⟨[.obj [("id", .str "u1")]], ["v_user"], 5, 86400, [("User", "u1")], false⟩ ?_ "v_user" (by simp) (by simp)
  rfl

end FraiseQL.CacheResult
