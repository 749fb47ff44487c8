import FraiseQL.CacheAdapter
import Mathlib.Data.List.Induction

/-! One reader and one writer on the same cache, in any order of their steps. The reader looks its key up,
asks the database when it missed, and stores the answer; the writer changes the database and then invalidates
the view it changed. Every entry that is live at the start was computed before the change. Of the ten orders
one is harmful: the reader asks before the change and stores after the invalidation. -/

namespace FraiseQL.CacheAdapter

open CacheResult CachedDatabaseAdapter QueryResultCache

inductive Party where
  | reader
  | writer
  deriving DecidableEq

/-- Where the reader stands in `execute_where_query_impl` or `execute_with_projection_impl`; `old` says that
its rows were read before the change. -/
inductive ReaderAt where
  | ready
  | missed
  | holding (rows : List Json) (old : Bool)
  | done

inductive WriterAt where
  | ready
  | changed
  | done

/-- The reader's request, and the answers of the database before and after the change. -/
structure RaceRead where
  now : UInt64
  key : Key
  view : String
  before : Except FraiseQLError (List Json)
  after : Except FraiseQLError (List Json)

/-- The shared cache, the two parties, and for each key whether its entry was computed before the change. -/
structure Race where
  adapter : CachedDatabaseAdapter
  reader : ReaderAt
  writer : WriterAt
  old : Key → Bool

/-- The database as the reader meets it. -/
def RaceRead.ask (r : RaceRead) : WriterAt → Except FraiseQLError (List Json) × Bool
  | .ready => (r.before, true)
  | _ => (r.after, false)

section Race

variable (toUppercase : Char → List Char) (r : RaceRead) (view : String)

/-- The reader's next step. A read that bypasses the cache takes no part in the race. -/
def readerStep (s : Race) : Race :=
  match s.reader with
  | .ready =>
    if !s.adapter.usesCache r.view then { s with reader := .done }
    else match s.adapter.lookup r.key with
      | (some _, adapter) => { s with adapter := adapter, reader := .done }
      | (none, adapter) => { s with adapter := adapter, reader := .missed }
  | .missed =>
    match r.ask s.writer with
    | (.error _, _) => { s with reader := .done }
    | (.ok rows, old) => { s with reader := .holding rows old }
  | .holding rows old =>
    { s with
      adapter := s.adapter.fill toUppercase r.now r.key r.view rows
      reader := .done
      old := Function.update s.old r.key old }
  | .done => s

def writerStep (s : Race) : Race :=
  match s.writer with
  | .ready => { s with writer := .changed }
  | .changed => { s with adapter := (s.adapter.invalidateViews [view]).2, writer := .done }
  | .done => s

def raceStep (s : Race) : Party → Race
  | .reader => readerStep toUppercase r s
  | .writer => writerStep view s

/-- Before either party has taken a step. -/
def raceStart (adapter : CachedDatabaseAdapter) : Race := ⟨adapter, .ready, .ready, fun _ => true⟩

/-- The state after the parties took their steps in the given order. -/
def race (adapter : CachedDatabaseAdapter) (order : List Party) : Race :=
  order.foldl (raceStep toUppercase r view) (raceStart adapter)

/-- Both parties have finished: three steps of the reader and two of the writer. -/
def Finished (order : List Party) : Prop := order.count .reader = 3 ∧ order.count .writer = 2

/-- No live entry over the view was computed before the change. -/
def NoneStale (s : Race) : Prop :=
  ∀ key e, s.adapter.cache.live key = some e → view ∈ e.accessedViews → s.old key = false

/-- Every live entry over the view is registered under a view that its invalidation sweeps. -/
def Registered (adapter : CachedDatabaseAdapter) : Prop :=
  ∀ key e, adapter.cache.live key = some e → view ∈ e.accessedViews →
    adapter.cache.config.enabled = true ∧
      ∃ w, Swept adapter [view] w ∧ key ∈ adapter.cache.viewIndex.members w

/-- The reader reads the changed view through the cache, misses, and gets rows that the cache takes. -/
def Fills (adapter : CachedDatabaseAdapter) : Prop :=
  r.view = view ∧ adapter.usesCache r.view = true ∧ adapter.cache.live r.key = none ∧
    ∃ rows, r.before = .ok rows ∧ adapter.cache.admits rows = true

/-- The order in which the reader asks before the change and stores after the invalidation. -/
def staleOrder : List Party := [.reader, .reader, .writer, .writer, .reader]

variable {adapter : CachedDatabaseAdapter}

/-- A cache whose indexes cover its store has every entry registered. -/
theorem registered_of_inv (hinv : Inv adapter.cache) : Registered view adapter := by
  intro key e hlive hview
  refine ⟨?_, view, .inl (List.mem_singleton_self _), hinv.views key e hlive view hview⟩
  by_contra hoff
  rw [hinv.disabled (Bool.not_eq_true _ ▸ hoff) key] at hlive
  cases hlive

/-! ### What a step does to the cache -/

/-- The same entries, registrations and room; only the counters may differ. -/
structure SameEntries (a b : CachedDatabaseAdapter) : Prop where
  live : ∀ key, b.cache.live key = a.cache.live key
  viewIndex : b.cache.viewIndex = a.cache.viewIndex
  config : b.cache.config = a.cache.config
  memoryBytes : b.cache.memoryBytes = a.cache.memoryBytes
  cascader : b.cascadeInvalidator = a.cascadeInvalidator

variable (a : CachedDatabaseAdapter)

theorem SameEntries.refl : SameEntries a a :=
  ⟨fun _ => rfl, rfl, rfl, rfl, rfl⟩

theorem sameEntries_lookup (key : Key) : SameEntries a (a.lookup key).2 := by
  unfold lookup QueryResultCache.get
  split_ifs
  · exact SameEntries.refl a
  · cases a.cache.live key with
    | none | some e => exact ⟨fun _ => rfl, rfl, rfl, rfl, rfl⟩

variable {s : Race}

/-- The reader's first step leaves the entries alone; it goes on to the database when it missed. -/
theorem readerStep_ready (hat : s.reader = .ready) : ∃ a, SameEntries s.adapter a ∧
      ((readerStep toUppercase r s = { s with adapter := a, reader := .missed } ∧
          s.adapter.usesCache r.view = true ∧ s.adapter.cache.live r.key = none) ∨
        (readerStep toUppercase r s = { s with adapter := a, reader := .done } ∧
          ¬(s.adapter.usesCache r.view = true ∧ s.adapter.cache.live r.key = none))) := by
  unfold readerStep
  rw [hat]
  by_cases huses : s.adapter.usesCache r.view = true
  · refine ⟨(s.adapter.lookup r.key).2, sameEntries_lookup s.adapter r.key, ?_⟩
    simp only [huses, Bool.not_true, Bool.false_eq_true, if_false]
    have hfst : (s.adapter.lookup r.key).1 = _ := get_fst (usesCache_enabled huses) r.key
    cases hlive : s.adapter.cache.live r.key with
    | none =>
      rw [hlive] at hfst
      rw [show s.adapter.lookup r.key = (none, (s.adapter.lookup r.key).2) from Prod.ext hfst rfl]
      exact .inl ⟨rfl, trivial, rfl⟩
    | some e =>
      rw [hlive] at hfst
      rw [show s.adapter.lookup r.key = (some e.result, (s.adapter.lookup r.key).2) from
        Prod.ext hfst rfl]
      exact .inr ⟨rfl, by simp⟩
  · refine ⟨s.adapter, SameEntries.refl _, .inr ⟨?_, fun h => huses h.1⟩⟩
    simp [huses]

theorem readerStep_missed (hat : s.reader = .missed) : readerStep toUppercase r s = { s with reader := .done } ∨
      ∃ rows old, r.ask s.writer = (.ok rows, old) ∧
        readerStep toUppercase r s = { s with reader := .holding rows old } := by
  unfold readerStep
  rw [hat]
  cases hask : r.ask s.writer with
  | mk answer old =>
    cases answer with
    | error e => exact .inl rfl
    | ok rows => exact .inr ⟨rows, old, rfl, rfl⟩

theorem admits_congr {c c' : QueryResultCache} (hconfig : c'.config = c.config)
    (hmemory : c'.memoryBytes = c.memoryBytes) (rows : List Json) : c'.admits rows = c.admits rows := by
  unfold admits
  rw [hconfig, hmemory]

variable {rows : List Json}

/-- Which entries and registrations a fill leaves. -/
theorem fill_admitted (now : UInt64) (key : Key) (v : String) (hadmits : a.cache.admits rows = true) :
    ∃ e : CachedResult, e.accessedViews = [v] ∧
      (∀ k, (a.fill toUppercase now key v rows).cache.live k = if k = key then some e else a.cache.live k) ∧
      (a.fill toUppercase now key v rows).cache.config = a.cache.config ∧
      (∀ w k, k ∈ (a.fill toUppercase now key v rows).cache.viewIndex.members w ↔
        (w = v ∧ k = key) ∨ k ∈ a.cache.viewIndex.members w) := by
  obtain ⟨hconfig, hlive, -, hindex, -⟩ := putArc_admitted a.cache now key rows [v]
    (a.viewTtlOverrides.lookup v) (viewNameToEntityType toUppercase v) hadmits
  refine ⟨_, rfl, hlive, hconfig, ?_⟩
  intro w k
  show k ∈ (a.cache.putArc _ _ _ _ _ _).viewIndex.members w ↔ _
  rw [hindex, SetMap.mem_members_addAll]
  refine or_congr_left (and_congr_left fun _ => ?_)
  exact List.mem_singleton

theorem fill_refused (now : UInt64) (key : Key) (v : String) (hrefused : ¬a.cache.admits rows = true) :
    a.fill toUppercase now key v rows = a := by
  unfold fill putArc
  rw [if_neg hrefused]

theorem sweep_live (views : List String) (key : Key) :
    ((a.invalidateViews views).2.cache.live key = none ∧ a.cache.config.enabled = true ∧
        ∃ w, Swept a views w ∧ key ∈ a.cache.viewIndex.members w) ∨
      ((a.invalidateViews views).2.cache.live key = a.cache.live key ∧
        ¬(a.cache.config.enabled = true ∧ ∃ w, Swept a views w ∧ key ∈ a.cache.viewIndex.members w)) := by
  rw [invalidateViews_cache]
  unfold QueryResultCache.invalidateViews
  by_cases hon : a.cache.config.enabled = true
  · rw [if_neg (by simp [hon]), invalidateKeys_live]
    by_cases hmem : key ∈ ((a.expand views).1.flatMap a.cache.viewIndex.members).dedup
    · obtain ⟨w, hw, hkey⟩ := List.mem_flatMap.mp (List.mem_dedup.mp hmem)
      exact .inl ⟨if_pos hmem, hon, w, (mem_expand a views w).mp hw, hkey⟩
    · refine .inr ⟨if_neg hmem, ?_⟩
      rintro ⟨_, w, hw, hkey⟩
      exact hmem (List.mem_dedup.mpr (List.mem_flatMap.mpr ⟨w, (mem_expand a views w).mpr hw, hkey⟩))
  · rw [if_pos (by simp [hon])]
    exact .inr ⟨rfl, fun h => hon h.1⟩

theorem sweep_room (views : List String) :
    (a.invalidateViews views).2.cache.config = a.cache.config ∧
      (a.invalidateViews views).2.cache.memoryBytes = a.cache.memoryBytes := by
  rw [invalidateViews_cache]
  refine ⟨(shrinks_invalidateViews a.cache _).config, ?_⟩
  have hfold : ∀ (keys : List Key) (c : QueryResultCache),
      (keys.foldl storeInvalidate c).memoryBytes = c.memoryBytes := by
    intro keys
    induction keys with
    | nil => exact fun c => rfl
    | cons key keys ih => exact fun c => ih (c.storeInvalidate key)
  unfold QueryResultCache.invalidateViews
  split_ifs
  · rfl
  · exact hfold _ _

theorem swept_congr {a b : CachedDatabaseAdapter} (h : b.cascadeInvalidator = a.cascadeInvalidator)
    (views : List String) (w : String) : Swept b views w ↔ Swept a views w := by
  unfold Swept
  rw [h]

theorem Registered.same {a b : CachedDatabaseAdapter} (hreg : Registered view a) (h : SameEntries a b) :
    Registered view b := by
  intro key e hlive hview
  rw [h.live] at hlive
  obtain ⟨hon, w, hw, hkey⟩ := hreg key e hlive hview
  rw [h.config, h.viewIndex]
  exact ⟨hon, w, (swept_congr h.cascader [view] w).mpr hw, hkey⟩

/-! ### The orders without a stale entry -/

/-- What holds after the steps `pre` of a race over registered entries. Rows that were read before the
change are held only after the reader's two steps came first, and while the writer is at work every live
entry stays registered for its sweep. -/
structure Guarded (adapter : CachedDatabaseAdapter) (pre : List Party) (s : Race) : Prop where
  idle : s.reader = .ready → s.writer = .ready → pre = [] ∧ s.adapter = adapter
  missed : s.reader = .missed → s.writer = .ready →
    pre = [.reader] ∧ adapter.usesCache r.view = true ∧ adapter.cache.live r.key = none
  holding : ∀ rows, s.reader = .holding rows true → ∃ k,
    pre = [.reader, .reader] ++ List.replicate k .writer ∧ (s.writer = .changed → 1 ≤ k) ∧
      (s.writer = .done → 2 ≤ k) ∧ r.before = .ok rows ∧ adapter.usesCache r.view = true ∧
        adapter.cache.live r.key = none
  absent : (s.reader = .missed ∨ ∃ rows old, s.reader = .holding rows old) →
    s.adapter.cache.live r.key = none ∧ s.adapter.cache.config.enabled = true
  room : s.reader ≠ .done →
    s.adapter.cache.config = adapter.cache.config ∧
      s.adapter.cache.memoryBytes = adapter.cache.memoryBytes
  registered : s.writer ≠ .done → Registered view s.adapter
  stale : s.writer = .done → ∀ key e, s.adapter.cache.live key = some e → view ∈ e.accessedViews →
    s.old key = true → Fills r view adapter ∧
      ∃ k, 2 ≤ k ∧ [.reader, .reader] ++ List.replicate k .writer ++ [.reader] <+: pre

theorem guarded_start (hreg : Registered view adapter) : Guarded r view adapter [] (raceStart adapter) where
  idle := fun _ _ => ⟨rfl, rfl⟩
  missed := by
    intro h
    cases h
  holding := by
    intro rows h
    cases h
  absent := by
    rintro (h | ⟨_, _, h⟩)
    · cases h
    · cases h
  room := fun _ => ⟨rfl, rfl⟩
  registered := fun _ => hreg
  stale := by
    intro h
    cases h

variable {r view}

variable {pre : List Party}

theorem Guarded.extend (h : Guarded r view adapter pre s) (p : Party) (hdone : s.writer = .done) :
    ∀ key e, s.adapter.cache.live key = some e → view ∈ e.accessedViews → s.old key = true →
      Fills r view adapter ∧ ∃ k, 2 ≤ k ∧
        [.reader, .reader] ++ List.replicate k .writer ++ [.reader] <+: pre ++ [p] := by
  intro key e hlive hview hold
  obtain ⟨hfills, k, hk, hbegin⟩ := h.stale hdone key e hlive hview hold
  exact ⟨hfills, k, hk, hbegin.trans (List.prefix_append _ _)⟩

theorem Guarded.writer (h : Guarded r view adapter pre s) :
    Guarded r view adapter (pre ++ [.writer]) (writerStep view s) := by
  unfold writerStep
  cases hat : s.writer with
  | ready =>
    refine ⟨?_, ?_, ?_, h.absent, h.room, ?_, ?_⟩
    · intro _ hw
      cases hw
    · intro _ hw
      cases hw
    · intro rows hrows
      obtain ⟨k, rfl, -, -, hrest⟩ := h.holding rows hrows
      refine ⟨k + 1, ?_, fun _ => by omega, ?_, hrest⟩
      · rw [List.replicate_succ', ← List.append_assoc]
      · intro hw
        cases hw
    · intro _
      exact h.registered (by rw [hat]; exact WriterAt.noConfusion)
    · intro hw
      cases hw
  | changed =>
    refine ⟨?_, ?_, ?_, ?_, ?_, ?_, ?_⟩
    · intro _ hw
      cases hw
    · intro _ hw
      cases hw
    · intro rows hrows
      obtain ⟨k, rfl, hk, -, hrest⟩ := h.holding rows hrows
      have hpos := hk hat
      refine ⟨k + 1, ?_, ?_, fun _ => by omega, hrest⟩
      · rw [List.replicate_succ', ← List.append_assoc]
      · intro hw
        cases hw
    · intro hreader
      obtain ⟨hnone, hon⟩ := h.absent hreader
      refine ⟨?_, (sweep_room s.adapter [view]).1 ▸ hon⟩
      rcases sweep_live s.adapter [view] r.key with ⟨hlive, -⟩ | ⟨hlive, -⟩
      · exact hlive
      · exact hlive.trans hnone
    · intro hreader
      obtain ⟨hconfig, hmemory⟩ := h.room hreader
      exact ⟨(sweep_room s.adapter [view]).1.trans hconfig, (sweep_room s.adapter [view]).2.trans hmemory⟩
    · intro hw
      exact absurd rfl hw
    · intro _ key e hlive hview _
      exfalso
      have hreg := h.registered (by rw [hat]; exact WriterAt.noConfusion)
      rcases sweep_live s.adapter [view] key with ⟨hnone, -⟩ | ⟨hsame, hnot⟩
      · rw [show (s.adapter.invalidateViews [view]).2.cache.live key = some e from hlive] at hnone
        cases hnone
      · rw [show (s.adapter.invalidateViews [view]).2.cache.live key = some e from hlive] at hsame
        exact hnot (hreg key e hsame.symm hview)
  | done =>
    refine ⟨?_, ?_, ?_, h.absent, h.room, h.registered, h.extend .writer⟩
    · intro _ hw
      rw [hat] at hw
      cases hw
    · intro _ hw
      rw [hat] at hw
      cases hw
    · intro rows hrows
      obtain ⟨k, rfl, -, hk, hrest⟩ := h.holding rows hrows
      have hpos := hk hat
      refine ⟨k + 1, ?_, fun _ => by omega, fun _ => by omega, hrest⟩
      rw [List.replicate_succ', ← List.append_assoc]

variable {toUppercase}

/-- The reader leaves the entries alone and does not come to hold rows from before the change. -/
theorem Guarded.same {s' : Race}
    (h : Guarded r view adapter pre s) (p : Party) (hentries : SameEntries s.adapter s'.adapter)
    (hwriter : s'.writer = s.writer) (hold : s'.old = s.old) (hreader : s'.reader = .done) :
    Guarded r view adapter (pre ++ [p]) s' where
  idle := by
    intro hr
    rw [hreader] at hr
    cases hr
  missed := by
    intro hr
    rw [hreader] at hr
    cases hr
  holding := by
    intro rows hr
    rw [hreader] at hr
    cases hr
  absent := by
    rw [hreader]
    rintro (hr | ⟨_, _, hr⟩)
    · cases hr
    · cases hr
  room := fun hr => absurd hreader hr
  registered := by
    intro hw
    rw [hwriter] at hw
    exact (h.registered hw).same view hentries
  stale := by
    intro hw key e hlive hview
    rw [hwriter] at hw
    rw [hentries.live] at hlive
    rw [hold]
    exact h.extend p hw key e hlive hview

theorem Guarded.readerReady (h : Guarded r view adapter pre s) (hat : s.reader = .ready) :
    Guarded r view adapter (pre ++ [.reader]) (readerStep toUppercase r s) := by
  obtain ⟨a, hentries, ⟨hstep, huses, hmiss⟩ | ⟨hstep, -⟩⟩ := readerStep_ready toUppercase r hat
  · rw [hstep]
    refine ⟨?_, ?_, ?_, ?_, ?_, ?_, ?_⟩
    · intro hr
      cases hr
    · intro _ hw
      obtain ⟨rfl, hadapter⟩ := h.idle hat hw
      rw [hadapter] at huses hmiss
      exact ⟨rfl, huses, hmiss⟩
    · intro rows hr
      cases hr
    · intro _
      refine ⟨(hentries.live _).trans hmiss, ?_⟩
      show a.cache.config.enabled = true
      rw [hentries.config]
      exact usesCache_enabled huses
    · intro _
      obtain ⟨hconfig, hmemory⟩ := h.room (by rw [hat]; exact ReaderAt.noConfusion)
      exact ⟨hentries.config.trans hconfig, hentries.memoryBytes.trans hmemory⟩
    · intro hw
      exact (h.registered hw).same view hentries
    · intro hw key e hlive hview
      exact h.extend .reader hw key e ((hentries.live key).symm.trans hlive) hview
  · rw [hstep]
    exact h.same .reader hentries rfl rfl rfl

theorem Guarded.readerMissed (h : Guarded r view adapter pre s) (hat : s.reader = .missed) :
    Guarded r view adapter (pre ++ [.reader]) (readerStep toUppercase r s) := by
  rcases readerStep_missed toUppercase r hat with hstep | ⟨rows, old, hask, hstep⟩
  · rw [hstep]
    exact h.same .reader (SameEntries.refl _) rfl rfl rfl
  · rw [hstep]
    refine ⟨?_, ?_, ?_, ?_, ?_, h.registered, h.extend .reader⟩
    · intro hr
      cases hr
    · intro hr
      cases hr
    · intro rows' hr
      obtain ⟨rfl, rfl⟩ : rows = rows' ∧ old = true := by
        injection hr with hrows hold
        exact ⟨hrows, hold⟩
      cases hw : s.writer with
      | ready =>
        rw [hw] at hask
        obtain ⟨rfl, huses, hmiss⟩ := h.missed hat hw
        refine ⟨0, rfl, ?_, ?_, (Prod.mk.inj hask).1, huses, hmiss⟩
        · intro hc
          cases hc
        · intro hc
          cases hc
      | changed | done =>
        rw [hw] at hask
        cases (Prod.mk.inj hask).2
    · intro _
      exact h.absent (.inl hat)
    · intro _
      exact h.room (by rw [hat]; exact ReaderAt.noConfusion)

theorem Guarded.readerHolding (h : Guarded r view adapter pre s) {old : Bool} (hat : s.reader = .holding rows old) :
    Guarded r view adapter (pre ++ [.reader]) (readerStep toUppercase r s) := by
  have hstep : readerStep toUppercase r s = { s with
      adapter := s.adapter.fill toUppercase r.now r.key r.view rows
      reader := .done
      old := Function.update s.old r.key old } := by
    unfold readerStep
    rw [hat]
  obtain ⟨habsent, hon⟩ := h.absent (.inr ⟨rows, old, hat⟩)
  obtain ⟨hconfig, hmemory⟩ := h.room (by rw [hat]; exact ReaderAt.noConfusion)
  rw [hstep]
  refine ⟨?_, ?_, ?_, ?_, fun hr => absurd rfl hr, ?_, ?_⟩
  · intro hr
    cases hr
  · intro hr
    cases hr
  · intro rows' hr
    cases hr
  · rintro (hr | ⟨_, _, hr⟩)
    · cases hr
    · cases hr
  · intro hw
    have hreg := h.registered hw
    by_cases hadmits : s.adapter.cache.admits rows = true
    · obtain ⟨e', hviews, hlives, hconfig', hmembers⟩ :=
        fill_admitted toUppercase s.adapter r.now r.key r.view hadmits
      intro key e hlive hview
      refine ⟨hconfig' ▸ hon, ?_⟩
      have hlive' := (hlives key).symm.trans hlive
      split_ifs at hlive' with hkey
      · obtain rfl := Option.some.inj hlive'
        rw [hviews, List.mem_singleton] at hview
        exact ⟨view, .inl (List.mem_singleton_self _), (hmembers view key).mpr (.inl ⟨hview, hkey⟩)⟩
      · obtain ⟨-, w, hw, hmem⟩ := hreg key e hlive' hview
        exact ⟨w, hw, (hmembers w key).mpr (.inr hmem)⟩
    · rw [show (s.adapter.fill toUppercase r.now r.key r.view rows) = s.adapter from
        fill_refused toUppercase s.adapter r.now r.key r.view hadmits]
      exact hreg
  · intro hw key e hlive hview hold
    by_cases hkey : key = r.key
    · subst hkey
      have hwas : old = true := (Function.update_self r.key old s.old).symm.trans hold
      subst hwas
      obtain ⟨k, rfl, -, hk, hbefore, huses, hmiss⟩ := h.holding rows hat
      by_cases hadmits : s.adapter.cache.admits rows = true
      · obtain ⟨e', hviews, hlives, -, -⟩ :=
          fill_admitted toUppercase s.adapter r.now r.key r.view hadmits
        have hentry := (hlives r.key).symm.trans hlive
        rw [if_pos rfl] at hentry
        obtain rfl := Option.some.inj hentry
        rw [hviews, List.mem_singleton] at hview
        refine ⟨⟨hview.symm, huses, hmiss, rows, hbefore, ?_⟩, k, hk hw, List.prefix_rfl⟩
        exact (admits_congr hconfig hmemory rows).symm.trans hadmits
      · have hsame := fill_refused toUppercase s.adapter r.now r.key r.view hadmits
        rw [show (s.adapter.fill toUppercase r.now r.key r.view rows).cache.live r.key = none by
          rw [hsame, habsent]] at hlive
        cases hlive
    · have hother : s.old key = true := (Function.update_of_ne hkey old s.old).symm.trans hold
      refine h.extend .reader hw key e ?_ hview hother
      by_cases hadmits : s.adapter.cache.admits rows = true
      · obtain ⟨_, -, hlives, -, -⟩ := fill_admitted toUppercase s.adapter r.now r.key r.view hadmits
        have hentry := (hlives key).symm.trans hlive
        rwa [if_neg hkey] at hentry
      · rw [← fill_refused toUppercase s.adapter r.now r.key r.view hadmits]
        exact hlive

theorem Guarded.reader (h : Guarded r view adapter pre s) :
    Guarded r view adapter (pre ++ [.reader]) (readerStep toUppercase r s) := by
  cases hat : s.reader with
  | ready => exact h.readerReady hat
  | missed => exact h.readerMissed hat
  | holding rows old => exact h.readerHolding hat
  | done =>
    have hstep : readerStep toUppercase r s = s := by
      unfold readerStep
      rw [hat]
    rw [hstep]
    exact h.same .reader (SameEntries.refl _) rfl rfl hat

theorem guarded_race (toUppercase : Char → List Char) (r : RaceRead) (hreg : Registered view adapter)
    (order : List Party) : Guarded r view adapter order (race toUppercase r view adapter order) := by
  induction order using List.reverseRecOn with
  | nil => exact guarded_start r view hreg
  | append_singleton pre p ih =>
    unfold race
    rw [List.foldl_append]
    cases p with
    | reader => exact ih.reader
    | writer => exact ih.writer

/-- An order in which the reader stores after two steps of the writer that follow its own two. -/
theorem finished_staleOrder {order : List Party} (hfinished : Finished order) {k : Nat} (hk : 2 ≤ k)
    (hbegin : [.reader, .reader] ++ List.replicate k .writer ++ [.reader] <+: order) :
    order = staleOrder := by
  obtain ⟨post, rfl⟩ := hbegin
  obtain ⟨hreader, hwriter⟩ := hfinished
  simp [List.count_append, List.count_replicate] at hreader hwriter
  obtain rfl : k = 2 := by omega
  cases post with
  | nil => rfl
  | cons p post =>
    cases p with
    | reader => simp at hreader
    | writer => simp at hwriter

/-! ### The entries that stay -/

/-- An entry from before the change that no sweep of the view reaches, and that the reader does not fill. -/
structure Missed (r : RaceRead) (view : String) (key : Key) (e : CachedResult) (s : Race) : Prop where
  live : s.adapter.cache.live key = some e
  old : s.old key = true
  unregistered : s.writer ≠ .done → ¬(s.adapter.cache.config.enabled = true ∧
    ∃ w, Swept s.adapter [view] w ∧ key ∈ s.adapter.cache.viewIndex.members w)
  reader : r.key = key → s.reader = .ready ∨ s.reader = .done

variable {key : Key} {e : CachedResult}

theorem Missed.same {s' : Race} (h : Missed r view key e s)
    (hentries : SameEntries s.adapter s'.adapter) (hwriter : s'.writer = s.writer) (hold : s'.old = s.old)
    (hreader : r.key = key → s'.reader = .ready ∨ s'.reader = .done) :
    Missed r view key e s' where
  live := (hentries.live key).trans h.live
  old := by
    rw [hold]
    exact h.old
  unregistered := by
    intro hw hreg
    rw [hwriter] at hw
    rw [hentries.config, hentries.viewIndex] at hreg
    obtain ⟨hon, w, hswept, hmem⟩ := hreg
    exact h.unregistered hw ⟨hon, w, (swept_congr hentries.cascader [view] w).mp hswept, hmem⟩
  reader := hreader

theorem Missed.writerStep (h : Missed r view key e s) : Missed r view key e (writerStep view s) := by
  unfold CacheAdapter.writerStep
  cases hat : s.writer with
  | ready => exact ⟨h.live, h.old, fun _ => h.unregistered (by rw [hat]; exact WriterAt.noConfusion), h.reader⟩
  | changed =>
    refine ⟨?_, h.old, fun hw => absurd rfl hw, h.reader⟩
    rcases sweep_live s.adapter [view] key with ⟨-, hreg⟩ | ⟨hsame, -⟩
    · exact absurd hreg (h.unregistered (by rw [hat]; exact WriterAt.noConfusion))
    · exact hsame.trans h.live
  | done => exact h

theorem Missed.readerStep (h : Missed r view key e s) : Missed r view key e (readerStep toUppercase r s) := by
  cases hat : s.reader with
  | ready =>
    obtain ⟨a, hentries, ⟨hstep, -, hmiss⟩ | ⟨hstep, -⟩⟩ := readerStep_ready toUppercase r hat
    · rw [hstep]
      refine h.same hentries rfl rfl ?_
      rintro rfl
      rw [h.live] at hmiss
      cases hmiss
    · rw [hstep]
      exact h.same hentries rfl rfl fun _ => .inr rfl
  | missed =>
    have hne : r.key ≠ key := by
      intro hkey
      rcases h.reader hkey with hr | hr <;> rw [hat] at hr <;> cases hr
    rcases readerStep_missed toUppercase r hat with hstep | ⟨rows, old, -, hstep⟩
    · rw [hstep]
      exact h.same (SameEntries.refl _) rfl rfl fun hkey => absurd hkey hne
    · rw [hstep]
      exact h.same (SameEntries.refl _) rfl rfl fun hkey => absurd hkey hne
  | holding rows old =>
    have hne : r.key ≠ key := by
      intro hkey
      rcases h.reader hkey with hr | hr <;> rw [hat] at hr <;> cases hr
    unfold CacheAdapter.readerStep
    rw [hat]
    have hold : Function.update s.old r.key old key = true :=
      (Function.update_of_ne hne.symm old s.old).trans h.old
    by_cases hadmits : s.adapter.cache.admits rows = true
    · obtain ⟨_, -, hlives, hconfig, hmembers⟩ :=
        fill_admitted toUppercase s.adapter r.now r.key r.view hadmits
      refine ⟨?_, hold, ?_, fun _ => .inr rfl⟩
      · rw [← h.live]
        exact (hlives key).trans (if_neg hne.symm)
      · rintro hw ⟨hon, w, hswept, hmem⟩
        rcases (hmembers w key).mp hmem with ⟨-, hkey⟩ | hmem
        · exact hne hkey.symm
        · exact h.unregistered hw ⟨hconfig ▸ hon, w, hswept, hmem⟩
    · have hsame := fill_refused toUppercase s.adapter r.now r.key r.view hadmits
      refine ⟨?_, hold, ?_, fun _ => .inr rfl⟩
      · exact (congrArg (fun a => a.cache.live key) hsame).trans h.live
      · intro hw
        have hnot := h.unregistered hw
        rw [← hsame] at hnot
        exact hnot
  | done =>
    unfold CacheAdapter.readerStep
    rw [hat]
    exact h

theorem missed_race (toUppercase : Char → List Char)
    (h : Missed r view key e (raceStart adapter)) (order : List Party) :
    Missed r view key e (race toUppercase r view adapter order) := by
  induction order using List.reverseRecOn with
  | nil => exact h
  | append_singleton pre p ih =>
    unfold race
    rw [List.foldl_append]
    cases p with
    | reader => exact ih.readerStep
    | writer => exact ih.writerStep

theorem readerStep_writer (s : Race) : (readerStep toUppercase r s).writer = s.writer := by
  unfold readerStep
  split
  · split_ifs
    · rfl
    · split <;> rfl
  · split <;> rfl
  · rfl
  · rfl

/-- The writer has come as far as it has taken steps. -/
theorem race_writer (toUppercase : Char → List Char) (r : RaceRead) (view : String)
    (adapter : CachedDatabaseAdapter) (order : List Party) :
    ((race toUppercase r view adapter order).writer = .ready ∧ order.count .writer = 0) ∨
      ((race toUppercase r view adapter order).writer = .changed ∧ order.count .writer = 1) ∨
        ((race toUppercase r view adapter order).writer = .done ∧ 2 ≤ order.count .writer) := by
  induction order using List.reverseRecOn with
  | nil => exact .inl ⟨rfl, rfl⟩
  | append_singleton pre p ih =>
    set s := race toUppercase r view adapter pre with hs
    have hstep : race toUppercase r view adapter (pre ++ [p]) = raceStep toUppercase r view s p := by
      rw [hs, race, race, List.foldl_append]
      rfl
    rw [hstep]
    cases p with
    | reader =>
      rw [show (raceStep toUppercase r view s .reader).writer = s.writer from readerStep_writer s]
      simpa using ih
    | writer =>
      simp only [raceStep, writerStep, List.count_append, List.count_singleton_self]
      rcases ih with ⟨hat, hcount⟩ | ⟨hat, hcount⟩ | ⟨hat, hcount⟩
      · rw [hat]
        exact .inr (.inl ⟨rfl, by omega⟩)
      · rw [hat]
        exact .inr (.inr ⟨rfl, by omega⟩)
      · rw [hat]
        exact .inr (.inr ⟨hat, by omega⟩)

/-- In the harmful order the rows from before the change are live at the end. -/
theorem stale_race (hfills : Fills r view adapter) : ¬NoneStale view (race toUppercase r view adapter staleOrder) := by
  obtain ⟨hview, huses, hmiss, rows, hbefore, hadmits⟩ := hfills
  obtain ⟨a, hentries, ⟨hfirst, -, -⟩ | ⟨-, hnot⟩⟩ :=
    readerStep_ready toUppercase r (s := raceStart adapter) rfl
  · set swept := (a.invalidateViews [view]).2 with hswept
    have hrace : race toUppercase r view adapter staleOrder =
        ⟨swept.fill toUppercase r.now r.key r.view rows, .done, .done,
          Function.update (fun _ => true) r.key true⟩ := by
      simp only [race, staleOrder, List.foldl_cons, List.foldl_nil, raceStep, hfirst]
      simp only [readerStep, writerStep, raceStart, RaceRead.ask, hbefore]
      rfl
    have hroom := sweep_room a [view]
    have hadmits' : swept.cache.admits rows = true := by
      rw [← hadmits]
      exact admits_congr (hroom.1.trans hentries.config) (hroom.2.trans hentries.memoryBytes) rows
    obtain ⟨e, hviews, hlives, -, -⟩ := fill_admitted toUppercase swept r.now r.key r.view hadmits'
    intro hnone
    rw [hrace] at hnone
    have hold := hnone r.key e ((hlives r.key).trans (if_pos rfl)) (by rw [hviews, hview]; simp)
    have htrue : Function.update (fun _ => true) r.key true r.key = true := Function.update_self _ _ _
    rw [show Function.update (fun _ => true) r.key true r.key = false from hold] at htrue
    cases htrue
  · exact absurd ⟨huses, hmiss⟩ hnot

variable (toUppercase r view)

end Race

/-- An enabled adapter with nothing cached. -/
def emptyAdapter : CachedDatabaseAdapter :=
  ⟨CacheResult.new { CacheConfig.default with enabled := true }, ∅, [], false, none⟩

/-- A read of the users, which are renamed between the two answers. -/
def renamedRead : RaceRead where
  now := 0
  key := 1
  view := "v_user"
  before := .ok [.obj [("id", .str "u1"), ("name", .str "Ada")]]
  after := .ok [.obj [("id", .str "u1"), ("name", .str "Grace")]]

end FraiseQL.CacheAdapter
