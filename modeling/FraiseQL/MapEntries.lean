import Mathlib.Data.String.Basic
import FraiseQL.Projection

/-! The entries of a `serde_json` map: what is found under a key after an insertion, that insertions keep the
key order, and that entries in key order are determined by what is found under each key. -/

namespace FraiseQL.MapEntries

open List Option

def InOrder (entries : List (String × Json)) : Prop := entries.Pairwise fun a b => a.1 < b.1

@[simp] theorem lookup_nil (key : String) : Json.lookup key [] = none := rfl

theorem lookup_cons (key k : String) (v : Json) (entries : List (String × Json)) :
    Json.lookup key ((k, v) :: entries) = if k = key then some v else Json.lookup key entries := by
  rw [Json.lookup, find?_cons]
  by_cases hk : k = key
  · rw [if_pos hk]
    simp only [hk, decide_true]
    rfl
  · rw [if_neg hk]
    simp only [hk, decide_false]
    rfl

theorem lookup_insertEntry (key k : String) (v : Json) (entries : List (String × Json)) :
    Json.lookup key (insertEntry k v entries) = if k = key then some v else Json.lookup key entries := by
  induction entries with
  | nil => rw [insertEntry, lookup_cons]
  | cons e entries ih =>
    obtain ⟨k', v'⟩ := e
    rw [insertEntry]
    by_cases heq : k = k'
    · rw [if_pos heq, lookup_cons, lookup_cons, heq]
      split_ifs <;> rfl
    · rw [if_neg heq]
      by_cases hlt : k < k'
      · rw [if_pos hlt, lookup_cons]
      · rw [if_neg hlt, lookup_cons, lookup_cons, ih]
        by_cases hkey : k = key
        · rw [if_pos hkey, if_pos hkey, if_neg fun h => heq (hkey.trans h.symm)]
        · rw [if_neg hkey, if_neg hkey]

variable {entries : List (String × Json)}

theorem mem_insertEntry {k : String} {v : Json} {e : String × Json}
    (h : e ∈ insertEntry k v entries) : e.1 = k ∨ e ∈ entries := by
  induction entries with
  | nil => exact .inl (congrArg Prod.fst (mem_singleton.mp h))
  | cons e' entries ih =>
    rw [insertEntry] at h
    split_ifs at h with heq hlt
    · rcases mem_cons.mp h with rfl | h
      · exact .inl heq.symm
      · exact .inr (mem_cons_of_mem _ h)
    · rcases mem_cons.mp h with rfl | h
      · exact .inl rfl
      · exact .inr h
    · rcases mem_cons.mp h with rfl | h
      · exact .inr mem_cons_self
      · exact (ih h).imp_right (mem_cons_of_mem _)

theorem insertEntry_inOrder (k : String) (v : Json) (h : InOrder entries) : InOrder (insertEntry k v entries) := by
  induction entries with
  | nil => exact pairwise_singleton _ _
  | cons e entries ih =>
    obtain ⟨hfirst, hrest⟩ := pairwise_cons.mp h
    rw [insertEntry]
    split_ifs with heq hlt
    · exact pairwise_cons.mpr ⟨hfirst, hrest⟩
    · refine pairwise_cons.mpr ⟨?_, h⟩
      intro e' hmem
      rcases mem_cons.mp hmem with rfl | hmem
      · exact hlt
      · exact hlt.trans (hfirst e' hmem)
    · refine pairwise_cons.mpr ⟨?_, ih hrest⟩
      intro e' hmem
      rcases mem_insertEntry hmem with hkey | hmem
      · rw [hkey]
        exact lt_of_le_of_ne (not_lt.mp hlt) (Ne.symm heq)
      · exact hfirst e' hmem

variable {key : String}

theorem lookup_eq_none (h : ∀ e ∈ entries, e.1 ≠ key) : Json.lookup key entries = none := by
  rw [Json.lookup, map_eq_none_iff, find?_eq_none]
  intro e hmem
  simpa using h e hmem

theorem lookup_isSome : (Json.lookup key entries).isSome ↔ ∃ e ∈ entries, e.1 = key := by
  rw [Json.lookup, isSome_map, find?_isSome]
  simp

theorem mem_of_lookup_eq_some {value : Json} (h : Json.lookup key entries = some value) : (key, value) ∈ entries := by
  obtain ⟨e, hfind, rfl⟩ := map_eq_some_iff.mp h
  have hkey : e.1 = key := by simpa using find?_some hfind
  rw [← hkey]
  exact mem_of_find?_eq_some hfind

/-- Entries in key order are determined by what is found under each key. -/
theorem eq_of_lookup {a b : List (String × Json)} (ha : InOrder a) (hb : InOrder b)
    (h : ∀ key, Json.lookup key a = Json.lookup key b) : a = b := by
  induction a generalizing b with
  | nil =>
    cases b with
    | nil => rfl
    | cons e b =>
      have hkey := h e.1
      rw [lookup_nil, lookup_cons, if_pos rfl] at hkey
      cases hkey
  | cons e a ih =>
    cases b with
    | nil =>
      have hkey := h e.1
      rw [lookup_nil, lookup_cons, if_pos rfl] at hkey
      cases hkey
    | cons f b =>
      obtain ⟨hea, ha⟩ := pairwise_cons.mp ha
      obtain ⟨hfb, hb⟩ := pairwise_cons.mp hb
      have hnone : ∀ {key : String} {entries : List (String × Json)}, (∀ g ∈ entries, key < g.1) →
          Json.lookup key entries = none := fun hlt => lookup_eq_none fun g hmem => (hlt g hmem).ne'
      have hkeys : e.1 = f.1 := by
        rcases lt_trichotomy e.1 f.1 with hlt | heq | hlt
        · have hkey := h e.1
          rw [lookup_cons, if_pos rfl, lookup_cons, if_neg hlt.ne',
            hnone fun g hmem => hlt.trans (hfb g hmem)] at hkey
          cases hkey
        · exact heq
        · have hkey := h f.1
          rw [lookup_cons, if_neg hlt.ne', lookup_cons, if_pos rfl,
            hnone fun g hmem => hlt.trans (hea g hmem)] at hkey
          cases hkey
      have hvalues : e.2 = f.2 := by
        have hkey := h e.1
        rw [lookup_cons, if_pos rfl, lookup_cons, if_pos hkeys.symm] at hkey
        exact some.inj hkey
      have hef : e = f := Prod.ext hkeys hvalues
      have htail : ∀ key, Json.lookup key a = Json.lookup key b := by
        intro key
        by_cases hkey : e.1 = key
        · rw [hnone (fun g hmem => hkey ▸ hea g hmem), hnone fun g hmem => hkey ▸ hkeys ▸ hfb g hmem]
        · have hall := h key
          rwa [lookup_cons, if_neg hkey, lookup_cons, if_neg (hkeys ▸ hkey)] at hall
      rw [hef, ih ha hb htail]

/-! ### Insertions one after the other -/

/-- The value of the last pair of a key. -/
def finalValue (key : String) : List (String × Json) → Option Json
  | [] => none
  | (k, v) :: pairs => (finalValue key pairs).or (if k = key then some v else none)

theorem lookup_insertAll (key : String) (pairs entries : List (String × Json)) :
    Json.lookup key (pairs.foldl (fun entries pair => insertEntry pair.1 pair.2 entries) entries) =
      (finalValue key pairs).or (Json.lookup key entries) := by
  induction pairs generalizing entries with
  | nil => rfl
  | cons pair pairs ih =>
    rw [foldl_cons, ih, lookup_insertEntry, finalValue, Option.or_assoc]
    congr 1
    split_ifs <;> rfl

theorem insertAll_inOrder (pairs : List (String × Json)) (h : InOrder entries) :
    InOrder (pairs.foldl (fun entries pair => insertEntry pair.1 pair.2 entries) entries) := by
  induction pairs generalizing entries with
  | nil => exact h
  | cons pair pairs ih =>
    rw [foldl_cons]
    exact ih (insertEntry_inOrder _ _ h)

end FraiseQL.MapEntries
