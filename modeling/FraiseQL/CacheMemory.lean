import FraiseQL.CacheResult

/-! The memory counter of the query result cache. An entry is counted when it is stored and taken off by its
listener call, so that the counter stands for the live entries and those that wait for the call. `clear` sets it to
zero while the calls for what it removed are still to come: the next of them takes the counter below zero, and a
cache with a budget stores nothing any more. -/

namespace FraiseQL.CacheResult

open QueryResultCache List

/-- The entries that are live, or removed and waiting for their listener call. -/
def QueryResultCache.entries (c : QueryResultCache) : Nat := c.store.keys.length + c.notifications.length

/-- A put of an entry that still fits into the address space, a clear with nothing to clear. -/
def CleanStep (c : QueryResultCache) : Op → Prop
  | .put _ _ result _ _ _ => c.admits result = true → entryOverhead.toNat * (c.entries + 1) < 2 ^ 64
  | .clear => c.entries = 0
  | _ => True

/-- Every step of the run is clean in the state it is taken in. -/
def Clean : QueryResultCache → List Op → Prop
  | _, [] => True
  | c, op :: ops => CleanStep c op ∧ Clean (step c op) ops

/-- The next listener call does not take the counter below zero, without a waiting call the counter stands for the
live entries, and with no entry at all every budget has room. -/
structure Accounted (c : QueryResultCache) : Prop where
  noWrap : c.notifications ≠ [] → entryOverhead ≤ c.memoryBytes
  balance : c.notifications = [] → c.memoryBytes.toNat = entryOverhead.toNat * c.store.keys.length
  room : c.entries = 0 → ∀ maxTotal, c.config.maxTotalBytes = some maxTotal → c.memoryBytes.toNat < maxTotal

/-- The counter stands for all entries. -/
structure Counted (config : CacheConfig) (c : QueryResultCache) : Prop where
  config : c.config = config
  counter : c.memoryBytes.toNat = entryOverhead.toNat * c.entries

/-! ### The number of entries -/

variable (c : QueryResultCache)

theorem live_toList_length (key : Key) :
    (c.store.keys.erase key).length + (c.live key).toList.length = c.store.keys.length := by
  cases hlive : c.live key with
  | none =>
    rw [erase_of_not_mem (AList.lookup_eq_none.mp hlive)]
    rfl
  | some e =>
    have hmem : key ∈ c.store.keys := AList.lookup_isSome.mp (by rw [← live, hlive]; rfl)
    have hpos := length_pos_of_mem hmem
    rw [length_erase_of_mem hmem, Option.toList_some, length_singleton]
    omega

/-- A removed entry waits. -/
theorem entries_storeInvalidate (key : Key) : (c.storeInvalidate key).entries = c.entries := by
  have hlength := live_toList_length c key
  simp only [entries, storeInvalidate, AList.keys_erase, length_append, length_map]
  omega

/-- A replaced entry waits beside the new one. -/
theorem entries_storeInsert (key : Key) (value : CachedResult) : (c.storeInsert key value).entries = c.entries + 1 := by
  have hlength := live_toList_length c key
  simp only [entries, storeInsert, AList.keys_insert, length_append, length_map, length_cons]
  omega

/-! ### What a step preserves -/

/-- Nothing is stored, and what is removed waits. -/
structure Keeps (c c' : QueryResultCache) : Prop where
  config : c'.config = c.config
  memoryBytes : c'.memoryBytes = c.memoryBytes
  entries : c'.entries = c.entries

theorem Keeps.refl : Keeps c c := ⟨rfl, rfl, rfl⟩

theorem keeps_storeInvalidate (key : Key) : Keeps c (c.storeInvalidate key) :=
  ⟨rfl, rfl, entries_storeInvalidate c key⟩

theorem keeps_foldl (keys : List Key) : Keeps c (keys.foldl storeInvalidate c) := by
  induction keys generalizing c with
  | nil => exact Keeps.refl c
  | cons key keys ih =>
    have hfirst := keeps_storeInvalidate c key
    have hrest := ih (c.storeInvalidate key)
    exact ⟨hrest.config.trans hfirst.config, hrest.memoryBytes.trans hfirst.memoryBytes,
      hrest.entries.trans hfirst.entries⟩

theorem keeps_invalidateKeys (keys : List Key) : Keeps c (c.invalidateKeys keys).2 := by
  have hkeeps := keeps_foldl c keys
  exact ⟨hkeeps.config, hkeeps.memoryBytes, hkeeps.entries⟩

theorem keeps_get (key : Key) : Keeps c (c.get key).2 := by
  unfold QueryResultCache.get
  split_ifs
  · exact Keeps.refl c
  · cases c.live key with
    | none => exact ⟨rfl, rfl, rfl⟩
    | some cached => exact ⟨rfl, rfl, rfl⟩

theorem keeps_invalidateViews (views : List String) : Keeps c (c.invalidateViews views).2 := by
  unfold invalidateViews
  split_ifs
  · exact Keeps.refl c
  · exact keeps_invalidateKeys c _

theorem keeps_invalidateListQueries (views : List String) : Keeps c (c.invalidateListQueries views).2 := by
  unfold invalidateListQueries
  split_ifs
  · exact Keeps.refl c
  · exact keeps_invalidateKeys c _

theorem keeps_invalidateByEntity (t id : String) : Keeps c (c.invalidateByEntity t id).2 := by
  unfold invalidateByEntity
  split_ifs
  · exact Keeps.refl c
  · exact Keeps.refl c
  · exact keeps_invalidateKeys c _

section Counted

variable {config : CacheConfig} {c : QueryResultCache}

theorem counted_new (config : CacheConfig) : Counted config (new config) := ⟨rfl, rfl⟩

theorem Counted.keep {c' : QueryResultCache} (h : Counted config c) (hkeeps : Keeps c c') : Counted config c' where
  config := hkeeps.config.trans h.config
  counter := by rw [hkeeps.memoryBytes, hkeeps.entries, h.counter]

/-- A listener call takes off the entry that waited for it. -/
theorem Counted.notify (h : Counted config c) (i : Nat) : Counted config (c.notify i) := by
  unfold QueryResultCache.notify
  cases hwait : c.notifications[i]? with
  | none => exact h
  | some n =>
    obtain ⟨hi, -⟩ := List.getElem?_eq_some_iff.mp hwait
    have hentries : c.entries = c.store.keys.length + (c.notifications.eraseIdx i).length + 1 := by
      rw [entries, List.length_eraseIdx_of_lt hi]
      omega
    have hle : entryOverhead ≤ c.memoryBytes := by
      rw [UInt64.le_iff_toNat_le, h.counter, hentries]
      exact Nat.le_mul_of_pos_right _ (Nat.succ_pos _)
    refine ⟨h.config, ?_⟩
    show (c.memoryBytes - entryOverhead).toNat =
      entryOverhead.toNat * (c.store.keys.length + (c.notifications.eraseIdx i).length)
    rw [UInt64.toNat_sub_of_le _ _ hle, h.counter, hentries, Nat.mul_succ, Nat.add_sub_cancel]

theorem Counted.putArc (h : Counted config c) {now : UInt64} {key : Key} {result : List Json} {views : List String}
    {ttl : Option UInt64} {entityType : Option String}
    (hroom : c.admits result = true → entryOverhead.toNat * (c.entries + 1) < 2 ^ 64) :
    Counted config (c.putArc now key result views ttl entityType) := by
  unfold QueryResultCache.putArc
  split
  · rename_i hadmits
    have hfits := hroom hadmits
    have hentries := entries_storeInsert (c.register key (c.entryOf now result views ttl entityType)) key
      (c.entryOf now result views ttl entityType)
    refine ⟨h.config, ?_⟩
    calc (c.memoryBytes + entryOverhead).toNat
        = (entryOverhead.toNat * c.entries + entryOverhead.toNat) % 2 ^ 64 := by rw [UInt64.toNat_add, h.counter]
      _ = entryOverhead.toNat * (c.entries + 1) := Nat.mod_eq_of_lt hfits
      _ = _ := congrArg _ hentries.symm
  · exact h

theorem entries_clear (c : QueryResultCache) : c.clear.entries = c.entries := by
  simp [entries, clear, storeInvalidateAll, AList.keys, keys, Nat.add_comm]

theorem Counted.clear (h : Counted config c) (hnone : c.entries = 0) : Counted config c.clear where
  config := h.config
  counter := by
    rw [entries_clear, hnone]
    rfl

theorem Counted.accounted (h : Counted config c) (hbudget : config.maxTotalBytes ≠ some 0) : Accounted c where
  noWrap := by
    intro hwait
    have hpos := length_pos_iff.mpr hwait
    rw [UInt64.le_iff_toNat_le, h.counter]
    refine Nat.le_mul_of_pos_right _ ?_
    rw [entries]
    omega
  balance := by
    intro hwait
    rw [h.counter, entries, hwait, length_nil, Nat.add_zero]
  room := by
    intro hnone maxTotal hmax
    rw [h.config] at hmax
    rw [h.counter, hnone, Nat.mul_zero]
    refine Nat.pos_of_ne_zero ?_
    rintro rfl
    exact hbudget hmax

theorem counted_step (h : Counted config c) (op : Op) (hclean : CleanStep c op) : Counted config (step c op) := by
  cases op with
  | put now key result views ttl entityType => exact h.putArc hclean
  | get key => exact h.keep (keeps_get c key)
  | invalidateViews views => exact h.keep (keeps_invalidateViews c views)
  | invalidateListQueries views => exact h.keep (keeps_invalidateListQueries c views)
  | invalidateByEntity t id => exact h.keep (keeps_invalidateByEntity c t id)
  | clear => exact h.clear hclean
  | evict key => exact h.keep (keeps_storeInvalidate c key)
  | notify i => exact h.notify i

/-! ### Runs -/

theorem counted_foldl (h : Counted config c) (ops : List Op) (hclean : Clean c ops) :
    Counted config (ops.foldl step c) := by
  induction ops generalizing c with
  | nil => exact h
  | cons op ops ih => exact ih (counted_step h op hclean.1) hclean.2

end Counted

theorem clean_pre {c : QueryResultCache} {pre ops : List Op} (hpre : pre <+: ops) (hclean : Clean c ops) :
    Clean c pre := by
  induction pre generalizing c ops with
  | nil => trivial
  | cons op pre ih =>
    obtain ⟨post, rfl⟩ := hpre
    exact ⟨hclean.1, ih (prefix_append pre post) hclean.2⟩

/-- In a run of clean steps the counter is right in every state. -/
theorem accounted_of_clean (config : CacheConfig) (hbudget : config.maxTotalBytes ≠ some 0) (ops : List Op)
    (hclean : Clean (new config) ops) : ∀ pre, pre <+: ops → Accounted (run config pre) := by
  intro pre hpre
  exact (counted_foldl (counted_new config) pre (clean_pre hpre hclean)).accounted hbudget

/-- A cache with a budget of 100 bytes. -/
def budgetConfig : CacheConfig := { CacheConfig.default with enabled := true, maxTotalBytes := some 100 }

/-- One row stored under a key. -/
def putUser (key : Key) : Op := .put 0 key [.obj [("id", .str "u1")]] ["v_user"] none (some "User")

/-- An entry is stored, replaced and invalidated. -/
theorem replaced_then_invalidated :
    Accounted (run budgetConfig
      [putUser 1, putUser 1, .notify 0, .invalidateViews ["v_user"], .evict 1, .notify 0, putUser 2]) := by
  refine accounted_of_clean budgetConfig (by decide) _ ?_ _ (prefix_refl _)
  refine ⟨?_, ?_, trivial, trivial, trivial, trivial, ?_, trivial⟩
  all_goals
    intro _
    decide +kernel

/-- An entry is stored and cleared, then its listener call comes. -/
theorem clear_wraps :
    ¬∀ (config : CacheConfig) (ops : List Op), config.maxTotalBytes ≠ some 0 → Accounted (run config ops) := by
  intro hall
  have haccounted := hall budgetConfig [putUser 1, .clear, .notify 0] (by decide)
  have hbalance := haccounted.balance (by decide +kernel)
  revert hbalance
  decide +kernel

end FraiseQL.CacheResult
