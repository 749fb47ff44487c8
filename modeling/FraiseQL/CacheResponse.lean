import FraiseQL.EventRun
import FraiseQL.Json
import FraiseQL.SetMap
import FraiseQL.TaggedStore

/-! The cache of whole responses (`cache/response_cache.rs`): a store and an index from views to keys. A put registers
the key first and stores the entry then; the store's eviction listener unregisters the key of every entry that was
removed, expired or replaced, under the views of that entry. The call may come right after the removal or later, so a
removed entry waits in `notifications` until it is served. Expiry and the capacity policy are a step `evict` that may
remove any key at any time. -/

namespace FraiseQL.CacheResponse

open List

/-- `(query_key, security_hash)`. -/
abbrev ResponseKey := UInt64 × UInt64

structure ResponseEntry where
  response : Json
  accessedViews : List String

structure ResponseCacheConfig where
  enabled : Bool
  maxEntries : Nat
  ttlSeconds : UInt64

def ResponseCacheConfig.default : ResponseCacheConfig where
  enabled := false
  maxEntries := 10000
  ttlSeconds := 300

/-- `ResponseCache`, with the removed entries whose listener call is still to come. -/
structure ResponseCache where
  config : ResponseCacheConfig
  store : AList (fun _ : ResponseKey => ResponseEntry)
  notifications : List (ResponseKey × ResponseEntry)
  viewIndex : SetMap String ResponseKey
  hits : UInt64
  misses : UInt64

def new (config : ResponseCacheConfig) : ResponseCache := ⟨config, ∅, [], ∅, 0, 0⟩

namespace ResponseCache

variable (c : ResponseCache)

def live (key : ResponseKey) : Option ResponseEntry := c.store.lookup key

/-- `store.insert`; a live entry of the key is replaced and handed to the listener. -/
def storeInsert (key : ResponseKey) (entry : ResponseEntry) : ResponseCache :=
  { c with
    store := c.store.insert key entry
    notifications := c.notifications ++ (c.live key).toList.map (key, ·) }

/-- `store.invalidate`, and the removal of one expired or evicted entry. -/
def storeInvalidate (key : ResponseKey) : ResponseCache :=
  { c with
    store := c.store.erase key
    notifications := c.notifications ++ (c.live key).toList.map (key, ·) }

def evictionListener (key : ResponseKey) (entry : ResponseEntry) : ResponseCache :=
  { c with viewIndex := c.viewIndex.removeAll entry.accessedViews key }

/-- The listener call for one of the removed entries. -/
def notify (i : Nat) : ResponseCache :=
  match c.notifications[i]? with
  | some (key, entry) => { c.evictionListener key entry with notifications := c.notifications.eraseIdx i }
  | none => c

def get (key : ResponseKey) : Option Json × ResponseCache :=
  if !c.config.enabled then (none, c)
  else match c.live key with
    | some entry => (some entry.response, { c with hits := c.hits + 1 })
    | none => (none, { c with misses := c.misses + 1 })

def put (key : ResponseKey) (response : Json) (accessedViews : List String) : ResponseCache :=
  if !c.config.enabled then c
  else { c with viewIndex := c.viewIndex.addAll accessedViews key }.storeInsert key ⟨response, accessedViews⟩

/-- The removal of the keys registered under one view, and their number. -/
def invalidateView (view : String) : UInt64 × ResponseCache :=
  let toRemove := c.viewIndex.members view
  (UInt64.ofNat toRemove.length, toRemove.foldl storeInvalidate c)

/-- `invalidate_views`; with each view come the listener calls that are made before the next one is looked up. -/
def invalidateViews : ResponseCache → List (String × List Nat) → UInt64 × ResponseCache
  | c, [] => (0, c)
  | c, (view, calls) :: views =>
    let (removed, c') := c.invalidateView view
    let (total, c'') := (calls.foldl notify c').invalidateViews views
    (removed + total, c'')

end ResponseCache

open ResponseCache

/-- The calls on the cache, the evictions the store decides on, and the listener calls. -/
inductive Op where
  | put (key : ResponseKey) (response : Json) (accessedViews : List String)
  | get (key : ResponseKey)
  | invalidateViews (views : List (String × List Nat))
  | evict (key : ResponseKey)
  | notify (i : Nat)

/-- The state after one step. -/
def step (c : ResponseCache) : Op → ResponseCache
  | .put key response views => c.put key response views
  | .get key => (c.get key).2
  | .invalidateViews views => (c.invalidateViews views).2
  | .evict key => c.storeInvalidate key
  | .notify i => c.notify i

/-- The state after a sequence of steps on a new cache. -/
def run (config : ResponseCacheConfig) (ops : List Op) : ResponseCache := ops.foldl step (new config)

/-! ### As a store with tags -/

/-- The views of an entry are its tags. -/
def viewsOf (e : ResponseEntry) : Set String := { v | v ∈ e.accessedViews }

/-- What the index has to cover. -/
def ResponseCache.tagged (c : ResponseCache) : TaggedStore ResponseKey ResponseEntry String where
  live := c.live
  waits key e := (key, e) ∈ c.notifications
  index v key := key ∈ c.viewIndex.members v

theorem storeInvalidate_live (c : ResponseCache) (key k : ResponseKey) :
    (c.storeInvalidate key).live k = if k = key then none else c.live k := by
  by_cases hk : k = key
  · subst hk
    simp [storeInvalidate, live]
  · rw [if_neg hk]
    exact AList.lookup_erase_ne hk

theorem shrinks_storeInvalidate (c : ResponseCache) (key : ResponseKey) :
    TaggedStore.Shrinks c.tagged (c.storeInvalidate key).tagged := by
  refine ⟨?_, ?_, fun _ _ h => h⟩
  · intro k e hlive
    have hkeep : (c.storeInvalidate key).live k = some e := hlive
    rw [storeInvalidate_live] at hkeep
    split_ifs at hkeep
    exact hkeep
  · intro k old hwait
    rcases mem_append.mp hwait with hwait | hwait
    · exact .inl hwait
    · obtain ⟨e, -, heq⟩ := mem_map.mp hwait
      obtain ⟨rfl, -⟩ := Prod.mk.inj heq
      right
      show (c.storeInvalidate key).live key = none
      rw [storeInvalidate_live, if_pos rfl]

theorem shrinks_foldl (keys : List ResponseKey) (c : ResponseCache) :
    TaggedStore.Shrinks c.tagged (keys.foldl storeInvalidate c).tagged := by
  induction keys generalizing c with
  | nil => exact .refl _
  | cons key keys ih => exact (shrinks_storeInvalidate c key).trans (ih _)

theorem foldl_live (keys : List ResponseKey) (c : ResponseCache) (k : ResponseKey) :
    (keys.foldl storeInvalidate c).live k = if k ∈ keys then none else c.live k := by
  induction keys generalizing c with
  | nil => simp
  | cons key keys ih =>
    rw [foldl_cons, ih, storeInvalidate_live]
    by_cases hk : k = key <;> simp [hk]

theorem get_tagged (c : ResponseCache) (key : ResponseKey) : (c.get key).2.tagged = c.tagged := by
  unfold ResponseCache.get
  split_ifs
  · rfl
  · cases c.live key <;> rfl

/-- A listener call, or nothing where no entry waits. -/
theorem calls_notify (c : ResponseCache) (i : Nat) :
    c.notify i = c ∨ ∃ key old, TaggedStore.Calls viewsOf key old c.tagged (c.notify i).tagged := by
  unfold ResponseCache.notify
  cases hi : c.notifications[i]? with
  | none => exact .inl rfl
  | some n =>
    right
    refine ⟨n.1, n.2, mem_of_getElem? hi, fun _ => rfl, fun _ _ => mem_of_mem_eraseIdx, ?_⟩
    intro t k
    exact SetMap.mem_members_removeAll

variable {c : ResponseCache} {key : ResponseKey}

/-- Every waiting entry has its call. -/
theorem exists_calls {old : ResponseEntry} (hwait : (key, old) ∈ c.notifications) :
    ∃ i, TaggedStore.Calls viewsOf key old c.tagged (c.notify i).tagged := by
  obtain ⟨i, hi⟩ := mem_iff_getElem?.mp hwait
  refine ⟨i, ?_⟩
  unfold ResponseCache.notify
  rw [hi]
  exact ⟨hwait, fun _ => rfl, fun _ _ => mem_of_mem_eraseIdx, fun _ _ => SetMap.mem_members_removeAll⟩

theorem stores_put (hon : c.config.enabled = true) (key : ResponseKey) (response : Json) (views : List String) :
    TaggedStore.Stores viewsOf key ⟨response, views⟩ c.tagged (c.put key response views).tagged := by
  unfold ResponseCache.put
  rw [if_neg (by simp [hon])]
  refine ⟨AList.lookup_insert _, fun _ hk => AList.lookup_insert_ne hk, ?_, fun _ _ => SetMap.mem_members_addAll⟩
  intro k old
  show (k, old) ∈ c.notifications ++ (c.live key).toList.map (key, ·) ↔ _
  rw [mem_append, mem_map]
  refine or_congr_right ?_
  constructor
  · rintro ⟨e, he, heq⟩
    obtain ⟨rfl, rfl⟩ := Prod.mk.inj heq
    exact ⟨rfl, Option.mem_toList.mp he⟩
  · rintro ⟨rfl, hlive⟩
    exact ⟨old, Option.mem_toList.mpr hlive, rfl⟩

/-! ### What a step preserves -/

/-- The index covers the store, and no live response depends on a view after its invalidation. -/
structure Coherent (c : ResponseCache) : Prop where
  covered : ∀ key e, c.live key = some e → ∀ v ∈ e.accessedViews, key ∈ c.viewIndex.members v
  afterViews : ∀ views key e, (c.invalidateViews views).2.live key = some e →
    ∀ v ∈ e.accessedViews, v ∉ views.map Prod.fst

/-- A response is stored over no entry of its key, live or waiting for its listener call, that has a view of it. -/
def FreshStep (c : ResponseCache) : Op → Prop
  | .put key _ views => c.config.enabled = true → ∀ old : ResponseEntry,
      c.live key = some old ∨ (key, old) ∈ c.notifications → views.Disjoint old.accessedViews
  | _ => True

/-- Every step of the run is fresh in the state it is taken in. -/
def Fresh : ResponseCache → List Op → Prop
  | _, [] => True
  | c, op :: ops => FreshStep c op ∧ Fresh (step c op) ops

/-- The invariant of the run. -/
abbrev Inv (c : ResponseCache) : Prop := TaggedStore.Inv viewsOf c.tagged

theorem disjoint_viewsOf {e old : ResponseEntry} :
    Disjoint (viewsOf e) (viewsOf old) ↔ e.accessedViews.Disjoint old.accessedViews := Set.disjoint_left

theorem inv_new (config : ResponseCacheConfig) : Inv (new config) where
  covers := by intro key e hlive; cases hlive
  apart := by intro key e old hlive; cases hlive

theorem inv_notify (hinv : Inv c) (i : Nat) : Inv (c.notify i) := by
  rcases calls_notify c i with hsame | ⟨key, old, hcalls⟩
  · rw [hsame]
    exact hinv
  · exact hinv.calls hcalls

theorem inv_foldl_notify (hinv : Inv c) (calls : List Nat) : Inv (calls.foldl notify c) := by
  induction calls generalizing c with
  | nil => exact hinv
  | cons i calls ih => exact ih (inv_notify hinv i)

theorem foldl_notify_live (c : ResponseCache) (calls : List Nat) (key : ResponseKey) :
    (calls.foldl notify c).live key = c.live key := by
  induction calls generalizing c with
  | nil => rfl
  | cons i calls ih =>
    rw [foldl_cons, ih]
    rcases calls_notify c i with hsame | ⟨_, _, hcalls⟩
    · rw [hsame]
    · exact hcalls.live key

/-- An invalidation keeps the invariant, stores nothing, and leaves no entry with one of its views. -/
theorem invalidateViews_spec (hinv : Inv c) (views : List (String × List Nat)) :
    Inv (c.invalidateViews views).2 ∧ ∀ key e, (c.invalidateViews views).2.live key = some e →
      c.live key = some e ∧ ∀ v ∈ e.accessedViews, v ∉ views.map Prod.fst := by
  induction views generalizing c with
  | nil => exact ⟨hinv, fun key e hlive => ⟨hlive, fun _ _ => not_mem_nil⟩⟩
  | cons p views ih =>
    obtain ⟨view, calls⟩ := p
    have hremoved : Inv (c.invalidateView view).2 := hinv.shrinks (shrinks_foldl _ c)
    obtain ⟨hfinal, hrest⟩ := ih (inv_foldl_notify hremoved calls)
    refine ⟨hfinal, ?_⟩
    intro key e hlive
    obtain ⟨hkept, hviews⟩ := hrest key e hlive
    rw [foldl_notify_live] at hkept
    have hbefore : (if key ∈ c.viewIndex.members view then none else c.live key) = some e :=
      (foldl_live _ c key).symm.trans hkept
    split_ifs at hbefore with hmem
    refine ⟨hbefore, ?_⟩
    intro v hv
    rw [map_cons, mem_cons, not_or]
    refine ⟨?_, hviews v hv⟩
    rintro rfl
    exact hmem (hinv.covers key e hbefore v hv)

theorem coherent_of_inv (hinv : Inv c) : Coherent c where
  covered := hinv.covers
  afterViews := fun views key e hlive => ((invalidateViews_spec hinv views).2 key e hlive).2

theorem inv_put (hinv : Inv c) {response : Json} {views : List String}
    (hfresh : FreshStep c (.put key response views)) : Inv (c.put key response views) := by
  by_cases hon : c.config.enabled = true
  · refine hinv.stores (stores_put hon key response views) ?_
    intro old hout
    exact disjoint_viewsOf.mpr (hfresh hon old hout)
  · unfold ResponseCache.put
    rw [if_pos (by simp [hon])]
    exact hinv

theorem inv_step (hinv : Inv c) (op : Op) (hfresh : FreshStep c op) : Inv (step c op) := by
  cases op with
  | put key response views => exact inv_put hinv hfresh
  | get key =>
    show TaggedStore.Inv viewsOf (c.get key).2.tagged
    rw [get_tagged]
    exact hinv
  | invalidateViews views => exact (invalidateViews_spec hinv views).1
  | evict key => exact hinv.shrinks (shrinks_storeInvalidate c key)
  | notify i => exact inv_notify hinv i

/-! ### Runs -/

theorem fresh_iff_along (ops : List Op) : Fresh c ops ↔ EventRun.Along step FreshStep c ops := by
  induction ops generalizing c with
  | nil => rfl
  | cons op ops ih => exact and_congr_right fun _ => ih

/-- A response stored over an entry with one of its views loses its registration by the call for that entry. -/
theorem not_covered_of_stale {response : Json} {views : List String} (hstale : ¬FreshStep c (.put key response views)) :
    ∃ i, ¬Coherent ((c.put key response views).notify i) := by
  simp only [FreshStep, not_forall] at hstale
  obtain ⟨hon, old, hout, hshare⟩ := hstale
  have hstores := stores_put hon key response views
  obtain ⟨i, hcalls⟩ := exists_calls (hstores.waits_of_outgoing hout)
  refine ⟨i, fun hcoherent => ?_⟩
  exact hstores.not_covers (fun hdisjoint => hshare (disjoint_viewsOf.mp hdisjoint)) hcalls hcoherent.covered

/-- The index stays coherent in every state of a run, whatever waiting listener calls come next, exactly when every
response is stored over none of its key with a view in common. -/
theorem coherent_iff_fresh (config : ResponseCacheConfig) (ops : List Op) :
    (∀ pre, pre <+: ops → ∀ is : List Nat, Coherent (run config (pre ++ is.map .notify))) ↔
      Fresh (new config) ops := by
  rw [fresh_iff_along]
  have hstep : ∀ c op, Inv c → FreshStep c op → Inv (step c op) := fun _ op h => inv_step h op
  refine EventRun.along_iff_paused hstep (fun _ => coherent_of_inv) ?_ ?_ (inv_new config)
  · exact fun _ _ => trivial
  intro c op hstale
  cases op with
  | put key response views => exact not_covered_of_stale hstale
  | _ => exact absurd trivial hstale

/-- The same response put twice: the call for the first entry unregisters the second. -/
theorem replaced_response_survives :
    ¬∀ (config : ResponseCacheConfig) (ops : List Op), Coherent (run config ops) := by
  intro hall
  have hcoherent := hall { ResponseCacheConfig.default with enabled := true }
    [.put (1, 7) (.bool true) ["v_user"], .put (1, 7) (.bool true) ["v_user"], .notify 0]
  refine hcoherent.afterViews [("v_user", [])] (1, 7) ⟨.bool true, ["v_user"]⟩ ?_ "v_user" (by simp) (by simp)
  rfl

end FraiseQL.CacheResponse
