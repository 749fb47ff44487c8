import FraiseQL.FragmentResolution
import FraiseQL.KeyedFold

/-! Merging selections. The fields of both lists go through a table by response key, whose iteration order is not
fixed; the children of fields that meet are put one after the other and of each key the first stays. So what is below
two children of one key is not merged, an earlier field of the base is lost to a later one of its key, and the order of
the base is the table's. -/

namespace FraiseQL.Graphql

open Keyed FragmentResolver ParsedSelection List

/-! ### Merging -/

def ParsedSelection.withNested (sel : ParsedSelection) (nested : List ParsedSelection) : ParsedSelection :=
  .mk sel.name sel.aliasName sel.arguments nested sel.directives

@[simp] theorem ParsedSelection.withNested_nestedFields (sel : ParsedSelection) (nested : List ParsedSelection) :
    (sel.withNested nested).nestedFields = nested := rfl

@[simp] theorem ParsedSelection.withNested_responseKey (sel : ParsedSelection) (nested : List ParsedSelection) :
    (sel.withNested nested).responseKey = sel.responseKey := rfl

namespace FragmentResolver

def deduplicateFields (fields : List ParsedSelection) : List ParsedSelection :=
  firstOfEach ParsedSelection.responseKey [] fields

/-- One additional field at the entry of its response key. -/
def mergeField (field : ParsedSelection) : Option ParsedSelection → ParsedSelection
  | some existing =>
    if field.nestedFields.isEmpty then existing
    else existing.withNested (deduplicateFields (existing.nestedFields ++ field.nestedFields))
  | none => field

/-- The table of `merge_selections`. -/
def mergedByKey (base additional : List ParsedSelection) : List (String × ParsedSelection) :=
  putAll ParsedSelection.responseKey mergeField
    (putAll ParsedSelection.responseKey (fun field _ => field) [] base) additional

/-- `merge_selections`; `iterate` is the order in which the table is read. -/
def mergeSelections (iterate : List (String × ParsedSelection) → List (String × ParsedSelection))
    (base additional : List ParsedSelection) : List ParsedSelection :=
  (iterate (mergedByKey base additional)).map Prod.snd

end FragmentResolver

/-! ### What merging should keep -/

/-- There is a field at a path of response keys. -/
def HasPath : List ParsedSelection → List String → Prop
  | _, [] => True
  | sels, key :: path => ∃ sel ∈ sels, sel.responseKey = key ∧ HasPath sel.nestedFields path

instance decidableHasPath : ∀ sels path, Decidable (HasPath sels path)
  | _, [] => .isTrue trivial
  | sels, key :: path =>
    have := fun sel : ParsedSelection => decidableHasPath sel.nestedFields path
    inferInstanceAs (Decidable (∃ sel ∈ sels, sel.responseKey = key ∧ HasPath sel.nestedFields path))

/-- Each response key is there once, at every level. -/
inductive OnceEach : List ParsedSelection → Prop
  | mk {sels : List ParsedSelection} (hkeys : (sels.map ParsedSelection.responseKey).Nodup)
      (hnested : ∀ sel ∈ sels, OnceEach sel.nestedFields) : OnceEach sels

/-- The response keys of the base come in the order in which they first come in the base. -/
def KeepsOrder (base merged : List ParsedSelection) : Prop :=
  ∀ sel ∈ base, ∀ other ∈ base,
    (base.map ParsedSelection.responseKey).idxOf sel.responseKey <
        (base.map ParsedSelection.responseKey).idxOf other.responseKey →
      (merged.map ParsedSelection.responseKey).idxOf sel.responseKey <
        (merged.map ParsedSelection.responseKey).idxOf other.responseKey

/-- Nothing is lost of either list. -/
structure LosesNothing (base additional merged : List ParsedSelection) : Prop where
  paths : ∀ path, HasPath base path ∨ HasPath additional path → HasPath merged path
  once : OnceEach merged
  ordered : KeepsOrder base merged

/-! ### What merging keeps -/

section Condition

variable (base additional : List ParsedSelection) (key : String)

/-- The fields of a response key that have a say: the last of the base and the additional ones. -/
def counted : List ParsedSelection :=
  (base.filter fun sel => sel.responseKey = key).getLast?.toList ++ additional.filter fun sel => sel.responseKey = key

/-- The children of these fields. -/
def childrenOf : List ParsedSelection := (counted base additional key).flatMap ParsedSelection.nestedFields

def ChildrenMeet : Prop := ∃ sel ∈ (counted base additional key).tail, sel.nestedFields ≠ []

/-- The first field of its response key. -/
def IsFirst (sels : List ParsedSelection) (sel : ParsedSelection) : Prop :=
  sels.find? (fun other => other.responseKey = sel.responseKey) = some sel

/-- The lists for which nothing is lost: the base has one response key; its fields have no path that the last of them
and the additional ones lack; where children meet, the first of a key has all paths of the others; and what stays has
each key once. -/
structure Mergeable : Prop where
  single : ∀ sel ∈ base, ∀ other ∈ base, sel.responseKey = other.responseKey
  earlier : ∀ sel ∈ base, ∀ path, HasPath sel.nestedFields path →
    HasPath (childrenOf base additional sel.responseKey) path
  first : ∀ key, ChildrenMeet base additional key → ∀ sel ∈ childrenOf base additional key, ∀ path,
    HasPath sel.nestedFields path → ∃ leading, IsFirst (childrenOf base additional key) leading ∧
      leading.responseKey = sel.responseKey ∧ HasPath leading.nestedFields path
  once : ∀ key, ¬ChildrenMeet base additional key →
    ((childrenOf base additional key).map ParsedSelection.responseKey).Nodup
  onceBelow : ∀ key sel, IsFirst (childrenOf base additional key) sel → OnceEach sel.nestedFields

end Condition

section Merge

variable {base additional : List ParsedSelection}

/-! ### One entry of the table -/

theorem mergeField_key {field existing : ParsedSelection} :
    (mergeField field (some existing)).responseKey = existing.responseKey := by
  rw [mergeField]
  split_ifs <;> rfl

theorem mergeFields_key (fields : List ParsedSelection) (existing : ParsedSelection) :
    (fields.foldl (fun existing field => mergeField field (some existing)) existing).responseKey =
      existing.responseKey := by
  induction fields generalizing existing with
  | nil => rfl
  | cons field fields ih => rw [foldl_cons, ih, mergeField_key]

/-- The children under an entry: those of its field when no children meet, otherwise the first of each key. -/
theorem mergeFields_nested (fields : List ParsedSelection) (existing : ParsedSelection) :
    (fields.foldl (fun existing field => mergeField field (some existing)) existing).nestedFields =
      if ∃ field ∈ fields, field.nestedFields ≠ [] then
        deduplicateFields ((existing :: fields).flatMap nestedFields)
      else (existing :: fields).flatMap nestedFields := by
  induction fields generalizing existing with
  | nil => simp
  | cons field fields ih =>
    rw [foldl_cons, ih, mergeField]
    by_cases hfield : field.nestedFields = []
    · simp [hfield]
    · have hempty : field.nestedFields.isEmpty = false := by
        rw [isEmpty_eq_false_iff]
        exact hfield
      have hmeet : ∃ other ∈ field :: fields, other.nestedFields ≠ [] := ⟨field, mem_cons_self, hfield⟩
      rw [if_pos hmeet, hempty, if_neg Bool.false_ne_true]
      have hdedup : ∀ more, deduplicateFields (deduplicateFields
          (existing.nestedFields ++ field.nestedFields) ++ more) =
            deduplicateFields (existing.nestedFields ++ (field.nestedFields ++ more)) := by
        intro more
        rw [← append_assoc]
        exact firstOfEach_append [] _ _
      simp only [flatMap_cons, withNested_nestedFields]
      split_ifs with hrest
      · exact hdedup _
      · have hnil : fields.flatMap nestedFields = [] := by
          rw [flatMap_eq_nil_iff]
          intro other hother
          by_contra hne
          exact hrest ⟨other, hother, hne⟩
        rw [hnil, append_nil, append_nil]

/-- The entry of a response key is built from the fields that have a say. -/
theorem lookup_mergedByKey (key : String) :
    (mergedByKey base additional).lookup key =
      match counted base additional key with
      | [] => none
      | existing :: fields =>
        some (fields.foldl (fun existing field => mergeField field (some existing)) existing) := by
  have hsome : ∀ (fields : List ParsedSelection) (existing : ParsedSelection),
      fields.foldl (fun old field => some (mergeField field old)) (some existing) =
        some (fields.foldl (fun existing field => mergeField field (some existing)) existing) := by
    intro fields
    induction fields with
    | nil => exact fun _ => rfl
    | cons field fields ih => exact fun existing => ih _
  rw [mergedByKey, lookup_putAll, lookup_putAll, lookup_nil, foldl_some, Option.or_none, counted]
  cases (base.filter fun sel => sel.responseKey = key).getLast? with
  | some existing => exact hsome _ existing
  | none =>
    rw [Option.toList_none, nil_append]
    cases additional.filter fun sel => sel.responseKey = key with
    | nil => rfl
    | cons existing fields => exact hsome fields existing

variable {sel : ParsedSelection} {key : String}

theorem mem_counted (h : sel ∈ counted base additional key) :
    sel.responseKey = key ∧ (sel ∈ base ∨ sel ∈ additional) := by
  rcases mem_append.mp h with hbase | hadditional
  · have hmem := mem_filter.mp (mem_of_getLast? (Option.mem_toList.mp hbase))
    exact ⟨of_decide_eq_true hmem.2, .inl hmem.1⟩
  · have hmem := mem_filter.mp hadditional
    exact ⟨of_decide_eq_true hmem.2, .inr hmem.1⟩

theorem counted_of_base (h : sel ∈ base) : counted base additional sel.responseKey ≠ [] := by
  have hmem : sel ∈ base.filter fun other => other.responseKey = sel.responseKey :=
    mem_filter.mpr ⟨h, decide_eq_true rfl⟩
  obtain ⟨last, hlast⟩ := Option.isSome_iff_exists.mp (getLast?_isSome.mpr (ne_nil_of_mem hmem))
  rw [counted, hlast]
  exact cons_ne_nil _ _

theorem counted_of_additional (h : sel ∈ additional) : sel ∈ counted base additional sel.responseKey :=
  mem_append_right _ (mem_filter.mpr ⟨h, decide_eq_true rfl⟩)

theorem entry_of_counted (h : counted base additional key ≠ []) :
    ∃ sel, (mergedByKey base additional).lookup key = some sel := by
  rw [lookup_mergedByKey]
  obtain ⟨existing, fields, heq⟩ := exists_cons_of_ne_nil h
  rw [heq]
  exact ⟨_, rfl⟩

open Classical in
theorem entry_spec (h : (mergedByKey base additional).lookup key = some sel) :
    sel.responseKey = key ∧ sel.nestedFields =
      if ChildrenMeet base additional key then
        deduplicateFields (childrenOf base additional key)
      else childrenOf base additional key := by
  rw [lookup_mergedByKey] at h
  unfold ChildrenMeet childrenOf
  cases heq : counted base additional key with
  | nil =>
    rw [heq] at h
    cases h
  | cons existing fields =>
    rw [heq] at h
    have hkey := (mem_counted (heq ▸ mem_cons_self : existing ∈ counted base additional key)).1
    rw [← Option.some.inj h, mergeFields_key, mergeFields_nested]
    refine ⟨hkey, ?_⟩
    rw [tail_cons]
    congr

/-- The children of an entry have a path exactly when it leads through a child that stays. -/
theorem mem_entry {sel child : ParsedSelection} (h : (mergedByKey base additional).lookup key = some sel) :
    child ∈ sel.nestedFields ↔ child ∈ childrenOf base additional key ∧
      (ChildrenMeet base additional key → IsFirst (childrenOf base additional key) child) := by
  rw [(entry_spec h).2]
  split_ifs with hmeet
  · unfold IsFirst deduplicateFields
    rw [mem_firstOfEach]
    exact ⟨fun hfirst => ⟨mem_of_find?_eq_some hfirst, fun _ => hfirst⟩, fun hboth => hboth.2 hmeet⟩
  · exact ⟨fun hmem => ⟨hmem, fun h => absurd h hmeet⟩, fun hboth => hboth.1⟩

/-! ### The merged selections -/

variable {iterate : List (String × ParsedSelection) → List (String × ParsedSelection)}

theorem mergedByKey_nodup : ((mergedByKey base additional).map Prod.fst).Nodup := by
  have hnil : (([] : List (String × ParsedSelection)).map Prod.fst).Nodup := nodup_nil
  exact putAll_nodup (putAll_nodup hnil base) additional

theorem mergedByKey_key {entry : String × ParsedSelection} (h : entry ∈ mergedByKey base additional) :
    entry.2.responseKey = entry.1 :=
  (entry_spec ((mem_iff_lookup mergedByKey_nodup).mp h)).1

section

variable (hperm : ∀ table, (iterate table).Perm table)
include hperm

theorem mem_mergeSelections {sel : ParsedSelection} : sel ∈ mergeSelections iterate base additional ↔
      (mergedByKey base additional).lookup sel.responseKey = some sel := by
  rw [← mem_iff_lookup mergedByKey_nodup, mergeSelections, mem_map]
  constructor
  · rintro ⟨entry, hentry, rfl⟩
    have hmem := (hperm _).mem_iff.mp hentry
    rw [mergedByKey_key hmem]
    exact hmem
  · intro hmem
    exact ⟨_, (hperm _).mem_iff.mpr hmem, rfl⟩

theorem mergeSelections_keys : (mergeSelections iterate base additional).map responseKey =
      (iterate (mergedByKey base additional)).map Prod.fst := by
  rw [mergeSelections, map_map]
  apply map_congr_left
  intro entry hentry
  exact mergedByKey_key ((hperm _).mem_iff.mp hentry)

theorem mergeSelections_nodup : ((mergeSelections iterate base additional).map responseKey).Nodup := by
  rw [mergeSelections_keys hperm]
  exact ((hperm _).map Prod.fst).nodup_iff.mpr mergedByKey_nodup

theorem hasPath_merged {key : String} {path : List String} :
    HasPath (mergeSelections iterate base additional) (key :: path) ↔
      ∃ sel, (mergedByKey base additional).lookup key = some sel ∧ HasPath sel.nestedFields path := by
  constructor
  · rintro ⟨sel, hsel, rfl, hpath⟩
    exact ⟨sel, (mem_mergeSelections hperm).mp hsel, hpath⟩
  · rintro ⟨sel, hsel, hpath⟩
    have hkey := (entry_spec hsel).1
    exact ⟨sel, (mem_mergeSelections hperm).mpr (hkey ▸ hsel), hkey, hpath⟩

end

theorem HasPath.mono {sels sels' : List ParsedSelection} (hsub : sels ⊆ sels') {path : List String}
    (h : HasPath sels path) : HasPath sels' path := by
  cases path with
  | nil => trivial
  | cons key path =>
    obtain ⟨sel, hsel, hkey, hpath⟩ := h
    exact ⟨sel, hsub hsel, hkey, hpath⟩

/-! ### When nothing is lost -/

theorem Mergeable.hasPath (h : Mergeable base additional) {path : List String}
    (hcounted : counted base additional key ≠ []) (hpath : HasPath (childrenOf base additional key) path) :
    ∃ sel, (mergedByKey base additional).lookup key = some sel ∧ HasPath sel.nestedFields path := by
  obtain ⟨sel, hsel⟩ := entry_of_counted hcounted
  refine ⟨sel, hsel, ?_⟩
  cases path with
  | nil => trivial
  | cons childKey path =>
    obtain ⟨child, hchild, rfl, hpath⟩ := hpath
    by_cases hmeet : ChildrenMeet base additional key
    · obtain ⟨leading, hfirst, hkey, hleading⟩ := h.first key hmeet child hchild path hpath
      exact ⟨leading, (mem_entry hsel).mpr ⟨mem_of_find?_eq_some hfirst, fun _ => hfirst⟩, hkey, hleading⟩
    · exact ⟨child, (mem_entry hsel).mpr ⟨hchild, fun habs => absurd habs hmeet⟩, rfl, hpath⟩

theorem Mergeable.onceEach (h : Mergeable base additional) (hperm : ∀ table, (iterate table).Perm table) :
    OnceEach (mergeSelections iterate base additional) := by
  refine .mk (mergeSelections_nodup hperm) ?_
  intro sel hsel
  have hentry := (mem_mergeSelections hperm).mp hsel
  by_cases hmeet : ChildrenMeet base additional sel.responseKey
  · refine .mk ?_ ?_
    · rw [(entry_spec hentry).2, if_pos hmeet]
      exact firstOfEach_nodup [] _
    · intro child hchild
      exact h.onceBelow _ child (((mem_entry hentry).mp hchild).2 hmeet)
  · have hnodup := h.once _ hmeet
    have hnested := (entry_spec hentry).2
    rw [if_neg hmeet] at hnested
    rw [hnested]
    refine .mk hnodup ?_
    intro child hchild
    exact h.onceBelow _ child ((mem_iff_find hnodup).mp hchild)

theorem Mergeable.losesNothing (h : Mergeable base additional) (hperm : ∀ table, (iterate table).Perm table) :
    LosesNothing base additional (mergeSelections iterate base additional) := by
  refine ⟨?_, h.onceEach hperm, ?_⟩
  · intro path hpath
    cases path with
    | nil => trivial
    | cons key path =>
      rw [hasPath_merged hperm]
      rcases hpath with ⟨sel, hsel, rfl, hpath⟩ | ⟨sel, hsel, rfl, hpath⟩
      · exact h.hasPath (counted_of_base hsel) (h.earlier sel hsel path hpath)
      · have hcounted : sel ∈ counted base additional sel.responseKey := counted_of_additional hsel
        refine h.hasPath (ne_nil_of_mem hcounted) (hpath.mono ?_)
        intro child hchild
        exact mem_flatMap.mpr ⟨sel, hcounted, hchild⟩
  · intro sel hsel other hother hlt
    rw [h.single sel hsel other hother] at hlt
    exact absurd hlt (Nat.lt_irrefl _)

/-! ### When something is lost -/

theorem hasPath_children (hsel : (mergedByKey base additional).lookup key = some sel) {path : List String}
    (h : HasPath sel.nestedFields path) : HasPath (childrenOf base additional key) path :=
  h.mono fun _ hchild => ((mem_entry hsel).mp hchild).1

section Lossless

variable (hperm : ∀ table, (iterate table).Perm table)
  (h : LosesNothing base additional (FragmentResolver.mergeSelections iterate base additional))

include hperm h

theorem LosesNothing.earlier {sel : ParsedSelection} (hsel : sel ∈ base) {path : List String}
    (hpath : HasPath sel.nestedFields path) : HasPath (childrenOf base additional sel.responseKey) path := by
  have hmerged := h.paths (sel.responseKey :: path) (.inl ⟨sel, hsel, rfl, hpath⟩)
  obtain ⟨entry, hentry, hpath⟩ := (hasPath_merged hperm).mp hmerged
  exact hasPath_children hentry hpath

theorem LosesNothing.first {key : String} (hmeet : ChildrenMeet base additional key) {child : ParsedSelection}
    (hchild : child ∈ childrenOf base additional key) {path : List String} (hpath : HasPath child.nestedFields path) :
    ∃ leading, IsFirst (childrenOf base additional key) leading ∧ leading.responseKey = child.responseKey ∧
      HasPath leading.nestedFields path := by
  obtain ⟨sel, hsel, hnested⟩ := mem_flatMap.mp hchild
  obtain ⟨rfl, hside⟩ := mem_counted hsel
  have hmerged : HasPath (mergeSelections iterate base additional)
      (sel.responseKey :: child.responseKey :: path) := by
    refine h.paths _ ?_
    rcases hside with hbase | hadditional
    · exact .inl ⟨sel, hbase, rfl, child, hnested, rfl, hpath⟩
    · exact .inr ⟨sel, hadditional, rfl, child, hnested, rfl, hpath⟩
  obtain ⟨entry, hentry, leading, hleading, hkey, hpath⟩ := (hasPath_merged hperm).mp hmerged
  exact ⟨leading, ((mem_entry hentry).mp hleading).2 hmeet, hkey, hpath⟩

theorem LosesNothing.onceEntry {key : String} {sel : ParsedSelection}
    (hsel : (mergedByKey base additional).lookup key = some sel) : OnceEach sel.nestedFields := by
  obtain ⟨_, hnested⟩ := h.once
  have hkey := (entry_spec hsel).1
  exact hnested sel ((mem_mergeSelections hperm).mpr (hkey ▸ hsel))

theorem LosesNothing.onceChildren {key : String} (hmeet : ¬ChildrenMeet base additional key) :
    ((childrenOf base additional key).map responseKey).Nodup := by
  by_cases hcounted : counted base additional key = []
  · rw [childrenOf, hcounted]
    exact nodup_nil
  · obtain ⟨sel, hsel⟩ := entry_of_counted hcounted
    obtain ⟨hkeys, _⟩ := h.onceEntry hperm hsel
    rw [(entry_spec hsel).2, if_neg hmeet] at hkeys
    exact hkeys

theorem LosesNothing.onceBelow {key : String} {child : ParsedSelection}
    (hfirst : IsFirst (childrenOf base additional key) child) : OnceEach child.nestedFields := by
  have hchild := mem_of_find?_eq_some hfirst
  obtain ⟨counts, hcounts, _⟩ := mem_flatMap.mp hchild
  obtain ⟨sel, hsel⟩ := entry_of_counted (ne_nil_of_mem hcounts)
  obtain ⟨_, hnested⟩ := h.onceEntry hperm hsel
  exact hnested child ((mem_entry hsel).mpr ⟨hchild, fun _ => hfirst⟩)

end Lossless

/-- An order of the table that starts with one key. -/
def startWith (key : String) (table : List (String × ParsedSelection)) : List (String × ParsedSelection) :=
  (table.filter fun entry => entry.1 = key) ++ table.filter fun entry => !decide (entry.1 = key)

theorem startWith_perm (key : String) (table : List (String × ParsedSelection)) :
    (startWith key table).Perm table := filter_append_perm _ table

theorem idxOf_startWith {table : List (String × ParsedSelection)} (h : key ∈ table.map Prod.fst) :
    ((startWith key table).map Prod.fst).idxOf key = 0 := by
  obtain ⟨entry, hentry, hkey⟩ := mem_map.mp h
  have hmem : entry ∈ table.filter fun entry => entry.1 = key := mem_filter.mpr ⟨hentry, decide_eq_true hkey⟩
  rw [startWith]
  cases hfront : table.filter fun entry => entry.1 = key with
  | nil =>
    rw [hfront] at hmem
    cases hmem
  | cons front rest =>
    have hin : front ∈ table.filter fun entry => entry.1 = key := hfront ▸ mem_cons_self
    have hfirst : front.1 = key := of_decide_eq_true (mem_filter.mp hin).2
    rw [cons_append, map_cons, hfirst, idxOf_cons_self]

/-- Some order of the table puts a later key of the base before an earlier one. -/
theorem not_before_of_ordered
    (h : ∀ key, KeepsOrder base (mergeSelections (startWith key) base additional))
    {sel other : ParsedSelection} (hsel : sel ∈ base) (hother : other ∈ base) :
    ¬(base.map responseKey).idxOf sel.responseKey <
      (base.map responseKey).idxOf other.responseKey := by
  intro hlt
  have hbefore := h other.responseKey sel hsel other hother hlt
  have hcounted : counted base additional other.responseKey ≠ [] := counted_of_base hother
  obtain ⟨entry, hentry⟩ := entry_of_counted hcounted
  have hmem := (mem_iff_lookup mergedByKey_nodup).mpr hentry
  rw [mergeSelections_keys (startWith_perm _), idxOf_startWith (mem_map_of_mem hmem)] at hbefore
  exact absurd hbefore (Nat.not_lt_zero _)

/-- Whatever the order of the table, merging loses nothing exactly when the lists can be merged. -/
theorem mergeSelections_losesNothing_iff (base additional : List ParsedSelection) :
    (∀ iterate : List (String × ParsedSelection) → List (String × ParsedSelection),
      (∀ table, (iterate table).Perm table) →
        LosesNothing base additional (FragmentResolver.mergeSelections iterate base additional)) ↔
      Mergeable base additional := by
  constructor
  · intro h
    have hfirst : ∀ key, LosesNothing base additional
        (mergeSelections (startWith key) base additional) :=
      fun key => h _ (startWith_perm key)
    have hsingle := @not_before_of_ordered base additional fun key => (hfirst key).ordered
    constructor
    · intro sel hsel other hother
      have hle := Nat.le_antisymm (Nat.not_lt.mp (hsingle hother hsel)) (Nat.not_lt.mp (hsingle hsel hother))
      exact (idxOf_inj (mem_map_of_mem hsel)).mp hle
    · exact fun sel hsel path hpath => (hfirst "").earlier (startWith_perm _) hsel hpath
    · exact fun key hmeet child hchild path hpath => (hfirst "").first (startWith_perm _) hmeet hchild hpath
    · exact fun key hmeet => (hfirst "").onceChildren (startWith_perm _) hmeet
    · exact fun key child hchild => (hfirst "").onceBelow (startWith_perm _) hchild
  · exact fun h iterate hperm => h.losesNothing hperm

/-- `user { profile { city } }` merged with `user { profile { bio } }`. -/
def profileOf (field : String) : List ParsedSelection :=
  [.mk "user" none [] [.mk "profile" none [] [.mk field none [] [] []] []] []]

theorem bio_lost : HasPath (profileOf "bio") ["user", "profile", "bio"] ∧
    ¬HasPath (FragmentResolver.mergeSelections id (profileOf "city") (profileOf "bio")) ["user", "profile", "bio"] := by
  decide

end Merge

end FraiseQL.Graphql
