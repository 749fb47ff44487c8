import Mathlib.Data.List.Basic
import Mathlib.Data.List.Nodup

/-! Lists read by a key: the first row of each key, and the table that a loop over rows builds when each row puts or
changes the entry of its key. What the table has under a key depends on the rows of that key only. -/

namespace FraiseQL.Keyed

open List Prod

variable {α κ : Type} [DecidableEq κ]

/-! ### The first row of each key -/

section First

variable (key : α → κ)

/-- The first row of each key that has not been seen. -/
def firstOfEach : List κ → List α → List α
  | _, [] => []
  | seen, a :: as =>
    if key a ∈ seen then firstOfEach seen as else a :: firstOfEach (key a :: seen) as

variable {key}

theorem find_firstOfEach (k : κ) (seen : List κ) (as : List α) :
    (firstOfEach key seen as).find? (fun a => key a = k) =
      if k ∈ seen then none else as.find? (fun a => key a = k) := by
  induction as generalizing seen with
  | nil =>
    rw [firstOfEach, find?_nil]
    split <;> rfl
  | cons a as ih =>
    rw [firstOfEach]
    by_cases hseen : key a ∈ seen
    · rw [if_pos hseen, ih]
      by_cases hk : k ∈ seen
      · rw [if_pos hk, if_pos hk]
      · have hne : key a ≠ k := fun heq => hk (heq ▸ hseen)
        rw [if_neg hk, if_neg hk, find?_cons_of_neg (by simpa using hne)]
    · rw [if_neg hseen]
      by_cases hkey : key a = k
      · subst hkey
        rw [if_neg hseen, find?_cons_of_pos (by simp), find?_cons_of_pos (by simp)]
      · rw [find?_cons_of_neg (by simpa using hkey), ih, find?_cons_of_neg (by simpa using hkey)]
        have hcons : (k ∈ key a :: seen) = (k ∈ seen) := by
          rw [mem_cons, eq_iff_iff]
          exact ⟨fun h => h.resolve_left (Ne.symm hkey), .inr⟩
        simp only [hcons]

theorem firstOfEach_subset {seen : List κ} {as : List α} {a : α} (h : a ∈ firstOfEach key seen as) :
    a ∈ as ∧ key a ∉ seen := by
  induction as generalizing seen with
  | nil => cases h
  | cons b as ih =>
    rw [firstOfEach] at h
    split_ifs at h with hseen
    · exact ⟨mem_cons_of_mem _ (ih h).1, (ih h).2⟩
    · rcases mem_cons.mp h with rfl | h
      · exact ⟨mem_cons_self, hseen⟩
      · exact ⟨mem_cons_of_mem _ (ih h).1, fun hmem => (ih h).2 (mem_cons_of_mem _ hmem)⟩

theorem firstOfEach_nodup (seen : List κ) (as : List α) : ((firstOfEach key seen as).map key).Nodup := by
  induction as generalizing seen with
  | nil => exact nodup_nil
  | cons a as ih =>
    rw [firstOfEach]
    split_ifs
    · exact ih seen
    · rw [map_cons, nodup_cons]
      refine ⟨?_, ih _⟩
      intro hmem
      obtain ⟨b, hb, heq⟩ := mem_map.mp hmem
      exact (firstOfEach_subset hb).2 (heq ▸ mem_cons_self)

theorem firstOfEach_append (seen : List κ) (as bs : List α) :
    firstOfEach key seen (firstOfEach key seen as ++ bs) = firstOfEach key seen (as ++ bs) := by
  induction as generalizing seen with
  | nil => rfl
  | cons a as ih =>
    rw [cons_append, firstOfEach, firstOfEach.eq_2 key seen a (as ++ bs)]
    split_ifs with hseen
    · exact ih seen
    · rw [cons_append, firstOfEach, if_neg hseen, ih]

/-- With each key once, a row is the first of its key. -/
theorem mem_iff_find {as : List α} (hnodup : (as.map key).Nodup) {a : α} :
    a ∈ as ↔ as.find? (fun b => key b = key a) = some a := by
  constructor
  · intro hmem
    induction as with
    | nil => cases hmem
    | cons b as ih =>
      rw [map_cons, nodup_cons] at hnodup
      rcases mem_cons.mp hmem with rfl | hmem
      · exact find?_cons_of_pos (by simp)
      · have hne : key b ≠ key a := fun heq => hnodup.1 (heq ▸ mem_map_of_mem hmem)
        rw [find?_cons_of_neg (by simpa using hne)]
        exact ih hnodup.2 hmem
  · exact mem_of_find?_eq_some

theorem mem_firstOfEach {as : List α} {a : α} :
    a ∈ firstOfEach key [] as ↔ as.find? (fun b => key b = key a) = some a := by
  rw [mem_iff_find (firstOfEach_nodup [] as), find_firstOfEach, if_neg not_mem_nil]

end First

/-! ### Tables -/

/-- The entry of a key is changed, or a new one is put at the end. -/
def upsert (k : κ) (change : Option α → α) : List (κ × α) → List (κ × α)
  | [] => [(k, change none)]
  | (j, a) :: table => if j = k then (j, change (some a)) :: table else (j, a) :: upsert k change table

theorem lookup_entry (i j : κ) (a : α) (table : List (κ × α)) :
    ((i, a) :: table).lookup j = if j = i then some a else table.lookup j := by
  rw [lookup_cons]
  by_cases h : j = i
  · subst h
    rw [if_pos rfl, beq_self_eq_true]
  · rw [if_neg h, beq_eq_false_iff_ne.mpr h]

theorem lookup_upsert (k j : κ) (change : Option α → α) (table : List (κ × α)) :
    (upsert k change table).lookup j = if j = k then some (change (table.lookup k)) else table.lookup j := by
  induction table with
  | nil => rw [upsert, lookup_entry, lookup_nil, lookup_nil]
  | cons entry table ih =>
    obtain ⟨i, a⟩ := entry
    rw [upsert]
    by_cases hi : i = k
    · subst hi
      rw [if_pos rfl, lookup_entry, lookup_entry, lookup_entry, if_pos rfl]
      split_ifs <;> rfl
    · rw [if_neg hi, lookup_entry, ih, lookup_entry, lookup_entry, if_neg (Ne.symm hi)]
      by_cases hj : j = i
      · subst hj
        rw [if_pos rfl, if_neg hi, if_pos rfl]
      · rw [if_neg hj, if_neg hj]

theorem upsert_keys (k : κ) (change : Option α → α) (table : List (κ × α)) :
    (upsert k change table).map fst =
      if k ∈ table.map fst then table.map fst else table.map fst ++ [k] := by
  induction table with
  | nil => simp [upsert]
  | cons entry table ih =>
    obtain ⟨i, a⟩ := entry
    rw [upsert]
    by_cases hi : i = k
    · simp [hi]
    · rw [if_neg hi, map_cons, ih]
      by_cases hmem : k ∈ table.map fst <;> simp [hmem, Ne.symm hi]

theorem upsert_nodup {k : κ} {change : Option α → α} {table : List (κ × α)}
    (h : (table.map fst).Nodup) : ((upsert k change table).map fst).Nodup := by
  rw [upsert_keys]
  split_ifs with hmem
  · exact h
  · exact nodup_append.mpr ⟨h, nodup_singleton k, fun a ha b hb heq =>
      hmem (mem_singleton.mp hb ▸ heq ▸ ha)⟩

section Fold

variable (key : α → κ) (change : α → Option α → α)

/-- A loop over rows, each at the entry of its key. -/
def putAll (table : List (κ × α)) (rows : List α) : List (κ × α) :=
  rows.foldl (fun table row => upsert (key row) (change row) table) table

variable {key change}

theorem lookup_putAll (k : κ) (table : List (κ × α)) (rows : List α) :
    (putAll key change table rows).lookup k =
      (rows.filter fun row => key row = k).foldl (fun old row => some (change row old)) (table.lookup k) := by
  induction rows generalizing table with
  | nil => rfl
  | cons row rows ih =>
    have hstep : putAll key change table (row :: rows) =
      putAll key change (upsert (key row) (change row) table) rows := rfl
    rw [hstep, ih, lookup_upsert, filter_cons]
    by_cases hkey : key row = k
    · subst hkey
      simp
    · simp [hkey, Ne.symm hkey]

theorem putAll_nodup {table : List (κ × α)} (h : (table.map fst).Nodup) (rows : List α) :
    ((putAll key change table rows).map fst).Nodup := by
  induction rows generalizing table with
  | nil => exact h
  | cons row rows ih => exact ih (upsert_nodup h)

/-- Rows that only put themselves leave the last of their key. -/
theorem foldl_some (rows : List α) (old : Option α) :
    rows.foldl (fun _ row => some row) old = rows.getLast?.or old := by
  induction rows generalizing old with
  | nil => rfl
  | cons row rows ih =>
    rw [foldl_cons, ih]
    cases rows with
    | nil => rfl
    | cons next rows =>
      rw [getLast?_cons_cons]
      obtain ⟨last, hlast⟩ := Option.isSome_iff_exists.mp
        (getLast?_isSome.mpr (cons_ne_nil next rows))
      rw [hlast]
      rfl

end Fold

/-- With each key once, an entry is what its key looks up. -/
theorem mem_iff_lookup {table : List (κ × α)} (hnodup : (table.map fst).Nodup) {k : κ} {a : α} :
    (k, a) ∈ table ↔ table.lookup k = some a := by
  induction table with
  | nil => simp
  | cons entry table ih =>
    obtain ⟨i, b⟩ := entry
    rw [map_cons, nodup_cons] at hnodup
    rw [mem_cons, lookup_entry]
    by_cases hk : k = i
    · subst hk
      have hnot : (k, a) ∉ table := fun hmem => hnodup.1 (mem_map.mpr ⟨(k, a), hmem, rfl⟩)
      simp [hnot, eq_comm]
    · simp [hk, ih hnodup.2]

end FraiseQL.Keyed
