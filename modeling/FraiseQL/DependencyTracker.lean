import FraiseQL.SetMap

/-! Which cache entries depend on which views (`cache/dependency_tracker.rs`). A list of views for each cache key and a
set of cache keys for each view are written by separate loops; they mirror each other in every state that is reached. -/

namespace FraiseQL

structure DependencyTracker where
  cacheToViews : AList fun _ : String => List String
  viewToCaches : SetMap String String

namespace DependencyTracker

def new : DependencyTracker := ⟨∅, ∅⟩

variable (t : DependencyTracker) (cacheKey : String)

/-- The views that a cache entry was recorded with. -/
def viewsOf : List String := (t.cacheToViews.lookup cacheKey).getD []

def getDependentCaches (view : String) : List String := t.viewToCaches.members view

def recordAccess (views : List String) : DependencyTracker where
  cacheToViews := t.cacheToViews.insert cacheKey views
  viewToCaches :=
    -- the old reverse mappings go first
    (t.viewToCaches.discardAll (t.viewsOf cacheKey) cacheKey).addAll views cacheKey

def removeCache : DependencyTracker where
  cacheToViews := t.cacheToViews.erase cacheKey
  viewToCaches := t.viewToCaches.discardAll (t.viewsOf cacheKey) cacheKey

def clear (_ : DependencyTracker) : DependencyTracker := ⟨∅, ∅⟩

inductive Op where
  | recordAccess (cacheKey : String) (views : List String)
  | removeCache (cacheKey : String)
  | clear

def step : Op → DependencyTracker
  | .recordAccess cacheKey views => t.recordAccess cacheKey views
  | .removeCache cacheKey => t.removeCache cacheKey
  | .clear => t.clear

/-- The two maps hold the same pairs, and no view is left without a cache entry. -/
structure Mirror : Prop where
  pairs : ∀ key view, view ∈ t.viewsOf key ↔ key ∈ t.getDependentCaches view
  occupied : t.viewToCaches.Occupied

variable {t} {cacheKey} {key view : String}

theorem Mirror.empty : Mirror ⟨∅, ∅⟩ where
  pairs := by simp [viewsOf, getDependentCaches]
  occupied := by simp [SetMap.Occupied]

theorem viewsOf_recordAccess {views : List String} :
    (t.recordAccess cacheKey views).viewsOf key = if key = cacheKey then views else t.viewsOf key := by
  split_ifs with hkey
  · rw [hkey, viewsOf, recordAccess, AList.lookup_insert]
    rfl
  · rw [viewsOf, recordAccess, AList.lookup_insert_ne hkey, viewsOf]

theorem viewsOf_removeCache : (t.removeCache cacheKey).viewsOf key = if key = cacheKey then [] else t.viewsOf key := by
  split_ifs with hkey
  · rw [hkey, viewsOf, removeCache, AList.lookup_erase]
    rfl
  · rw [viewsOf, removeCache, AList.lookup_erase_ne hkey, viewsOf]

theorem Mirror.step (h : t.Mirror) (op : Op) : (t.step op).Mirror := by
  cases op with
  | recordAccess cacheKey views =>
    refine ⟨fun key view => ?_, (h.occupied.discardAll _).addAll views⟩
    have hpairs := h.pairs key view
    rw [DependencyTracker.step, viewsOf_recordAccess, getDependentCaches, recordAccess, SetMap.mem_members_addAll,
      SetMap.mem_members_discardAll, ← getDependentCaches]
    split_ifs with hkey
    · rw [← hkey]
      tauto
    · tauto
  | removeCache cacheKey =>
    refine ⟨fun key view => ?_, h.occupied.discardAll _⟩
    have hpairs := h.pairs key view
    rw [DependencyTracker.step, viewsOf_removeCache, getDependentCaches, removeCache, SetMap.mem_members_discardAll,
      ← getDependentCaches]
    split_ifs with hkey
    · rw [← hkey]
      simp [hpairs]
    · tauto
  | clear => exact .empty

theorem Mirror.foldl (h : t.Mirror) (ops : List Op) : (ops.foldl DependencyTracker.step t).Mirror := by
  induction ops generalizing t with
  | nil => exact h
  | cons op ops ih => exact ih (h.step op)

/-- In every state that is reached a view is among the views of a cache key exactly when the key is among those that
depend on the view, and no view has an empty set; a key that is recorded has the views it was recorded with and no
others. -/
theorem mirror_along_run (ops : List Op) (cacheKey : String) (views : List String) :
    let t := ops.foldl step new
    (∀ key view, view ∈ t.viewsOf key ↔ key ∈ t.getDependentCaches view) ∧
      (∀ view, t.viewToCaches.lookup view ≠ some []) ∧
      (t.recordAccess cacheKey views).cacheToViews.lookup cacheKey = some views ∧
      ∀ view, cacheKey ∈ (t.recordAccess cacheKey views).getDependentCaches view ↔ view ∈ views := by
  have h : (ops.foldl step new).Mirror := Mirror.empty.foldl ops
  refine ⟨h.pairs, h.occupied, AList.lookup_insert _, fun view => ?_⟩
  have hviews := (h.step (.recordAccess cacheKey views)).pairs cacheKey view
  rwa [DependencyTracker.step, viewsOf_recordAccess, if_pos rfl, Iff.comm] at hviews

end DependencyTracker

end FraiseQL
