import FraiseQL.CacheKey
import Mathlib.Data.String.Basic

/-! The key of a query result (`generate_cache_key`) before it is hashed: the calls on the hasher determine the query,
the variables up to the order of keys in objects, the WHERE clause and the version of the schema. -/

namespace FraiseQL.CacheKey

open List

def generateCacheKey (pr : DebugText.Printer) (query : String) (vars : Json) (whereClause : Option WhereClause)
    (schemaVersion : String) : List HashToken :=
  .bytes "q:" :: .bytes query :: .bytes "\x00v:" :: hashJsonValue vars ++
    .bytes "\x00w:" :: hashWhere pr whereClause ++ [.bytes "\x00s:", .bytes schemaVersion]

/-! ### Values up to the order of keys -/

/-- Entries by key. -/
def sortEntries (entries : List (String × Json)) : List (String × Json) :=
  entries.mergeSort fun a b => decide (a.1 ≤ b.1)

mutual

/-- A value with the keys of every object in order. -/
def canonical : Json → Json
  | .arr items => .arr (canonicalItems items)
  | .obj entries => .obj (sortEntries (canonicalEntries entries))
  | value => value

def canonicalItems : List Json → List Json
  | [] => []
  | item :: items => canonical item :: canonicalItems items

def canonicalEntries : List (String × Json) → List (String × Json)
  | [] => []
  | (key, value) :: entries => (key, canonical value) :: canonicalEntries entries

end

def SameUpToOrder (v w : Json) : Prop := canonical v = canonical w

mutual

/-- A value as `serde_json` holds it, in whatever order: the keys of an object are distinct, and a float is printed
with a point or an exponent. -/
def Mapped : Json → Prop
  | .num (.float t) => '.' ∈ t.text.toList ∨ 'e' ∈ t.text.toList
  | .arr items => MappedItems items
  | .obj entries => (entries.map Prod.fst).Nodup ∧ MappedEntries entries
  | _ => True

def MappedItems : List Json → Prop
  | [] => True
  | item :: items => Mapped item ∧ MappedItems items

def MappedEntries : List (String × Json) → Prop
  | [] => True
  | (_, value) :: entries => Mapped value ∧ MappedEntries entries

end

variable (entries : List (String × Json))

theorem canonicalEntries_eq : canonicalEntries entries = entries.map fun e => (e.1, canonical e.2) := by
  induction entries with
  | nil => rfl
  | cons e entries ih => rw [canonicalEntries, ih, map_cons]

theorem hashEntries_eq : hashEntries entries = entries.map fun e => (e.1, hashJsonValue e.2) := by
  induction entries with
  | nil => rfl
  | cons e entries ih => rw [hashEntries, ih, map_cons]

theorem sortEntries_sorted : (sortEntries entries).Pairwise fun a b => decide (a.1 ≤ b.1) = true := by
  refine pairwise_mergeSort ?_ ?_ entries
  · intro a b c hab hbc
    exact decide_eq_true (le_trans (of_decide_eq_true hab) (of_decide_eq_true hbc))
  · intro a b
    rw [Bool.or_eq_true, decide_eq_true_eq, decide_eq_true_eq]
    exact le_total a.1 b.1

theorem eq_of_key {entries : List (String × Json)} (hkeys : (entries.map Prod.fst).Nodup) {a b : String × Json}
    (ha : a ∈ entries) (hb : b ∈ entries) (hkey : a.1 = b.1) : a = b :=
  inj_on_of_nodup_map hkeys ha hb hkey

/-- Entries with distinct keys are sorted the same way, whatever order they come in. -/
theorem sortEntries_perm {entries entries' : List (String × Json)} (hperm : entries.Perm entries')
    (hkeys : (entries.map Prod.fst).Nodup) : sortEntries entries = sortEntries entries' := by
  have hsame : (sortEntries entries).Perm (sortEntries entries') :=
    ((mergeSort_perm entries _).trans hperm).trans (mergeSort_perm entries' _).symm
  refine hsame.eq_of_pairwise ?_ (sortEntries_sorted entries) (sortEntries_sorted entries')
  intro a b ha hb hab hba
  refine eq_of_key hkeys ((mergeSort_perm entries _).mem_iff.mp ha)
    (hperm.mem_iff.mpr ((mergeSort_perm entries' _).mem_iff.mp hb)) ?_
  exact le_antisymm (of_decide_eq_true hab) (of_decide_eq_true hba)

theorem canonicalEntries_keys : (canonicalEntries entries).map Prod.fst = entries.map Prod.fst := by
  rw [canonicalEntries_eq, map_map]
  rfl

/-- Permuting the entries of an object changes nothing, when its keys are distinct. -/
theorem sameUpToOrder_of_perm {entries entries' : List (String × Json)} (hperm : entries.Perm entries')
    (hkeys : (entries.map Prod.fst).Nodup) : SameUpToOrder (.obj entries) (.obj entries') := by
  unfold SameUpToOrder
  rw [canonical, canonical, canonicalEntries_eq, canonicalEntries_eq]
  congr 1
  refine sortEntries_perm (hperm.map _) ?_
  rw [map_map]
  exact hkeys

/-- The entries of an object are hashed in the order of their keys. -/
theorem hashEntries_sort : sortKeys (hashEntries (sortEntries entries)) = sortKeys (hashEntries entries) := by
  have hmap : hashEntries (sortEntries entries) = sortKeys (hashEntries entries) := by
    rw [hashEntries_eq, hashEntries_eq, sortEntries, sortKeys]
    exact map_mergeSort fun _ _ _ _ => rfl
  rw [hmap]
  refine mergeSort_of_pairwise (pairwise_mergeSort ?_ ?_ _)
  · intro a b c hab hbc
    exact decide_eq_true (le_trans (of_decide_eq_true hab) (of_decide_eq_true hbc))
  · intro a b
    rw [Bool.or_eq_true, decide_eq_true_eq, decide_eq_true_eq]
    exact le_total a.1 b.1

mutual

theorem hashJsonValue_canonical : ∀ v : Json, hashJsonValue (canonical v) = hashJsonValue v
  | .null => rfl
  | .bool _ => rfl
  | .num _ => rfl
  | .str _ => rfl
  | .arr items => by
    obtain ⟨hlength, hitems⟩ := hashItems_canonical items
    rw [canonical, hashJsonValue, hashJsonValue, hlength, hitems]
  | .obj entries => by
    have hlength : (sortEntries (canonicalEntries entries)).length = entries.length := by
      rw [sortEntries, length_mergeSort, canonicalEntries_eq, length_map]
    rw [canonical, hashJsonValue, hashJsonValue, hlength, hashEntries_sort, hashEntries_canonical entries]

theorem hashItems_canonical : ∀ items : List Json,
    (canonicalItems items).length = items.length ∧ hashItems (canonicalItems items) = hashItems items
  | [] => ⟨rfl, rfl⟩
  | item :: items => by
    obtain ⟨hlength, hitems⟩ := hashItems_canonical items
    rw [canonicalItems, hashItems, hashItems, hashJsonValue_canonical item, hitems, length_cons,
      length_cons, hlength]
    exact ⟨rfl, rfl⟩

theorem hashEntries_canonical : ∀ entries : List (String × Json),
    hashEntries (canonicalEntries entries) = hashEntries entries
  | [] => rfl
  | (key, value) :: entries => by
    rw [canonicalEntries, hashEntries, hashEntries, hashJsonValue_canonical value, hashEntries_canonical entries]

end

theorem heldEntries_iff {entries : List (String × Json)} : HeldEntries entries ↔ ∀ e ∈ entries, Held e.2 := by
  induction entries with
  | nil => simp [HeldEntries]
  | cons e entries ih => rw [HeldEntries, ih, forall_mem_cons]

mutual

/-- The canonical form is held in map order. -/
theorem held_canonical : ∀ v : Json, Mapped v → Held (canonical v)
  | .null, _ => trivial
  | .bool _, _ => trivial
  | .num (.int _), _ => trivial
  | .num (.float _), h => h
  | .str _, _ => trivial
  | .arr items, h => by
    rw [Mapped] at h
    exact heldItems_canonical items h
  | .obj entries, h => by
    rw [Mapped] at h
    have hkeys : ((canonicalEntries entries).map Prod.fst).Nodup := by
      rw [canonicalEntries_keys]
      exact h.1
    have hsorted : ((sortEntries (canonicalEntries entries)).map Prod.fst).Nodup :=
      ((mergeSort_perm _ _).map Prod.fst).nodup_iff.mpr hkeys
    rw [canonical, Held]
    constructor
    · refine ((sortEntries_sorted _).and (pairwise_map.mp hsorted)).imp ?_
      rintro a b ⟨hle, hne⟩
      exact lt_of_le_of_ne (of_decide_eq_true hle) hne
    · rw [heldEntries_iff]
      intro e he
      exact heldEntries_iff.mp (heldEntries_canonical entries h.2) e ((mergeSort_perm _ _).mem_iff.mp he)

theorem heldItems_canonical : ∀ items : List Json, MappedItems items → HeldItems (canonicalItems items)
  | [], _ => trivial
  | item :: items, h => by
    rw [MappedItems] at h
    exact ⟨held_canonical item h.1, heldItems_canonical items h.2⟩

theorem heldEntries_canonical : ∀ entries : List (String × Json),
    MappedEntries entries → HeldEntries (canonicalEntries entries)
  | [], _ => trivial
  | (_, value) :: entries, h => by
    rw [MappedEntries] at h
    exact ⟨held_canonical value h.1, heldEntries_canonical entries h.2⟩

end

/-- Two values are hashed alike when they differ in the order of keys only. -/
theorem hashJsonValue_mapped {v w : Json} (hv : Mapped v) (hw : Mapped w) {x y : List HashToken}
    (heq : hashJsonValue v ++ x = hashJsonValue w ++ y) : SameUpToOrder v w ∧ x = y := by
  rw [← hashJsonValue_canonical v, ← hashJsonValue_canonical w] at heq
  exact hashJsonValue_decodes _ _ (held_canonical v hv) (held_canonical w hw) x y heq

/-! ### Clauses up to the order of keys -/

mutual

/-- A clause with its values in canonical form; a native condition is hashed as it is printed. -/
def canonicalClause : WhereClause → WhereClause
  | .field path op value => .field path op (canonical value)
  | .and clauses => .and (canonicalClauses clauses)
  | .or clauses => .or (canonicalClauses clauses)
  | .not clause => .not (canonicalClause clause)
  | .nativeField column pgCast op value => .nativeField column pgCast op value

def canonicalClauses : List WhereClause → List WhereClause
  | [] => []
  | clause :: clauses => canonicalClause clause :: canonicalClauses clauses

end

/-- The same tree, with values that are the same up to the order of keys. -/
def SameWhere (c d : Option WhereClause) : Prop := c.map canonicalClause = d.map canonicalClause

mutual

def MappedClause : WhereClause → Prop
  | .field _ _ value => Mapped value
  | .and clauses => MappedClauses clauses
  | .or clauses => MappedClauses clauses
  | .not clause => MappedClause clause
  | .nativeField _ _ _ _ => True

def MappedClauses : List WhereClause → Prop
  | [] => True
  | clause :: clauses => MappedClause clause ∧ MappedClauses clauses

end

mutual

theorem hashWhereClause_canonical (pr : DebugText.Printer) : ∀ c : WhereClause,
    hashWhereClause pr (canonicalClause c) = hashWhereClause pr c
  | .field path op value => by
    rw [canonicalClause, hashWhereClause, hashWhereClause, hashJsonValue_canonical]
  | .and clauses | .or clauses => by
    obtain ⟨hlength, hclauses⟩ := hashClauses_canonical pr clauses
    rw [canonicalClause, hashWhereClause, hashWhereClause, hlength, hclauses]
  | .not clause => by
    rw [canonicalClause, hashWhereClause, hashWhereClause, hashWhereClause_canonical pr clause]
  | .nativeField _ _ _ _ => rfl

theorem hashClauses_canonical (pr : DebugText.Printer) : ∀ cs : List WhereClause,
    (canonicalClauses cs).length = cs.length ∧ hashClauses pr (canonicalClauses cs) = hashClauses pr cs
  | [] => ⟨rfl, rfl⟩
  | c :: cs => by
    obtain ⟨hlength, hclauses⟩ := hashClauses_canonical pr cs
    rw [canonicalClauses, hashClauses, hashClauses, hashWhereClause_canonical pr c, hclauses, length_cons,
      length_cons, hlength]
    exact ⟨rfl, rfl⟩

end

mutual

theorem heldClause_canonical : ∀ c : WhereClause, MappedClause c →
    HeldClause (canonicalClause c) ∧ nativeValues (canonicalClause c) = nativeValues c
  | .field _ _ value, h => ⟨held_canonical value h, rfl⟩
  | .and clauses, h => heldClauses_canonical clauses h
  | .or clauses, h => heldClauses_canonical clauses h
  | .not clause, h => heldClause_canonical clause h
  | .nativeField _ _ _ _, _ => ⟨trivial, rfl⟩

theorem heldClauses_canonical : ∀ cs : List WhereClause, MappedClauses cs →
    HeldClauses (canonicalClauses cs) ∧ nativeValuesAll (canonicalClauses cs) = nativeValuesAll cs
  | [], _ => ⟨trivial, rfl⟩
  | c :: cs, h => by
    rw [MappedClauses] at h
    obtain ⟨hc, hvalues⟩ := heldClause_canonical c h.1
    obtain ⟨hcs, hothers⟩ := heldClauses_canonical cs h.2
    refine ⟨⟨hc, hcs⟩, ?_⟩
    rw [canonicalClauses, nativeValuesAll, nativeValuesAll, hvalues, hothers]

end

/-- The values compared with native columns in an optional clause. -/
def nativeValuesOf (whereClause : Option WhereClause) : List Json := (whereClause.map nativeValues).getD []

theorem hashWhere_canonical (pr : DebugText.Printer) (c : Option WhereClause) :
    hashWhere pr (c.map canonicalClause) = hashWhere pr c := by
  cases c with
  | none => rfl
  | some c => rw [Option.map_some, hashWhere, hashWhere, hashWhereClause_canonical]

theorem hashWhere_mapped (pr : DebugText.Printer) {c d : Option WhereClause} (hc : ∀ clause ∈ c, MappedClause clause)
    (hd : ∀ clause ∈ d, MappedClause clause) (htold : ToldApart pr (nativeValuesOf c) (nativeValuesOf d))
    {x y : List HashToken} (heq : hashWhere pr c ++ x = hashWhere pr d ++ y) : SameWhere c d ∧ x = y := by
  cases c with
  | none =>
    cases d with
    | none => exact ⟨rfl, (cons.inj heq).2⟩
    | some d => exact absurd (cons.inj heq).1 (by decide)
  | some c =>
    cases d with
    | none => exact absurd (cons.inj heq).1 (by decide)
    | some d =>
      obtain ⟨hheld, hvalues⟩ := heldClause_canonical c (hc c rfl)
      obtain ⟨hheld', hvalues'⟩ := heldClause_canonical d (hd d rfl)
      have htail := (cons.inj heq).2
      rw [← hashWhereClause_canonical pr c, ← hashWhereClause_canonical pr d] at htail
      have htold' : ToldApart pr (nativeValues (canonicalClause c)) (nativeValues (canonicalClause d)) := by
        rw [hvalues, hvalues']
        exact htold
      obtain ⟨hclause, hxy⟩ := hashWhereClause_decodes pr _ _ hheld hheld' htold' x y htail
      exact ⟨congrArg some hclause, hxy⟩

/-! ### The key -/

end FraiseQL.CacheKey
