import FraiseQL.FederationEntities
import Mathlib.Data.List.Pairwise

/-! Where entities stand in the answer of a batch. Results are numbered in the order the groups are walked, so a
batch answers by position exactly when its representations with a key are of one type, are not null, and can be
read with one statement. -/

namespace FraiseQL.Federation

open Outcome List Except

/-! ### Databases -/

/-- A stored row: the value of each column. -/
abbrev Record := String → Json

/-- The rows of each table. -/
abbrev Database := String → List Record

/-- No column of the key is null. -/
def KeyHeld (key : KeyDirective) (record : Record) : Prop := ∀ field ∈ key.fields, record field ≠ .null

def recordTexts (key : KeyDirective) (record : Record) : List String := key.fields.map fun field => keyText (record field)

/-- Two rows with the same key. -/
def SameKey (key : KeyDirective) (a b : Record) : Prop :=
  KeyHeld key a ∧ KeyHeld key b ∧ recordTexts key a = recordTexts key b

def NonNull (key : KeyDirective) (rep : EntityRepresentation) : Prop :=
  ∀ field ∈ key.fields, rep.keyFields.lookup field ≠ some .null

def project (fields : List String) (record : Record) : Row := fields.map fun field => (field, record field)

/-- The directive that identifies the entities of a type. -/
def keyOf (metadata : FederationMetadata) (typename : String) : Option (FederatedType × KeyDirective) := do
  let t ← metadata.find? fun t => t.name = typename
  let key ← t.keys.head?
  return (t, key)

/-- Keys are unique in the table of every type. -/
def UniqueKeys (metadata : FederationMetadata) (db : Database) : Prop :=
  ∀ typename t key, keyOf metadata typename = some (t, key) →
    (db typename.toLower).Pairwise fun a b => ¬ SameKey key a b

/-- Statements are answered with rows of the table whose keys are not null, among them every row whose key is
one of the tuples. -/
def Answers (db : Database) (executeRawQuery : Statement → Except FraiseQLError (List Row)) : Prop :=
  ∀ st, st.keyFields ≠ [] → ∃ records : List Record,
    executeRawQuery st = .ok (records.map (project st.fields)) ∧
    (∀ r ∈ records, r ∈ db st.table ∧ KeyHeld ⟨st.keyFields⟩ r) ∧
    ∀ r ∈ db st.table, KeyHeld ⟨st.keyFields⟩ r → recordTexts ⟨st.keyFields⟩ r ∈ st.tuples → r ∈ records

open Classical in
/-- The row of a table with the key texts of a representation. -/
noncomputable def rowFor (db : Database) (key : KeyDirective) (rep : EntityRepresentation) : Option Record :=
  (db rep.typename.toLower).find? fun r => KeyHeld key r ∧ recordTexts key r = repKeyTexts key rep

open Classical in
/-- The entity of a representation: the row of its type whose key is the key of the representation. -/
noncomputable def entityFor (metadata : FederationMetadata) (selection : List String) (db : Database)
    (rep : EntityRepresentation) : Option Json :=
  match keyOf metadata rep.typename with
  | none => none
  | some (t, key) =>
    if NonNull key rep then
      (rowFor db key rep).map fun r => entityOf rep.typename (project (selectFields t selection) r)
    else none

/-- Valid representations are answered by position, whatever the order of the groups and the rows stored. -/
def AnswersByPosition (metadata : FederationMetadata) (selection : List String) (reps : List EntityRepresentation) :
    Prop :=
  ∀ grouped db executeRawQuery, grouped.Perm (groupEntitiesByTypename reps) → UniqueKeys metadata db →
    Answers db executeRawQuery →
    batchLoadEntities metadata executeRawQuery selection grouped reps = .ok (reps.map (entityFor metadata selection db))

/-- The representations of a type can be read with a statement. -/
def Readable (reps : List EntityRepresentation) (typename : String) (key : KeyDirective) : Prop :=
  isSafeSqlIdentifier typename = true ∧ key.fields ≠ [] ∧ "__typename" ∉ key.fields ∧
  ∀ rep ∈ reps, rep.typename = typename → ∀ field ∈ key.fields, ∀ value, rep.keyFields.lookup field = some value →
    value.asArray? = none ∧ value.asObject? = none

/-! ### Groups -/

section Groups

variable {metadata : FederationMetadata} {executeRawQuery : Statement → Except FraiseQLError (List Row)}
  {selection : List String} {reps : List EntityRepresentation} {rep : EntityRepresentation} {t : FederatedType}
  {key : KeyDirective}

theorem mem_groups {group : String × List EntityRepresentation} (h : group ∈ groupEntitiesByTypename reps) :
    group.2 = reps.filter (·.typename = group.1) ∧ ∃ rep ∈ reps, rep.typename = group.1 := by
  obtain ⟨typename, hmem, rfl⟩ := mem_map.mp h
  obtain ⟨rep, hrep, rfl⟩ := mem_map.mp (mem_dedup.mp hmem)
  exact ⟨rfl, rep, hrep, rfl⟩

theorem group_mem (h : rep ∈ reps) :
    (rep.typename, reps.filter (·.typename = rep.typename)) ∈ groupEntitiesByTypename reps :=
  mem_map.mpr ⟨rep.typename, mem_dedup.mpr (mem_map.mpr ⟨rep, h, rfl⟩), rfl⟩

theorem groups_nodup (reps : List EntityRepresentation) : (groupEntitiesByTypename reps).Nodup := by
  apply List.Nodup.map
  · intro a b h
    exact congrArg Prod.fst h
  · exact nodup_dedup _

/-- The groups of some types hold the representations of these types. -/
theorem flatMap_filter_perm {typenames : List String} (hnodup : typenames.Nodup)
    (hall : ∀ rep ∈ reps, rep.typename ∈ typenames) :
    (typenames.flatMap fun typename => reps.filter (·.typename = typename)).Perm reps := by
  induction typenames generalizing reps with
  | nil =>
    cases reps with
    | nil => exact List.Perm.refl _
    | cons rep reps => exact absurd (hall rep mem_cons_self) not_mem_nil
  | cons typename typenames ih =>
    obtain ⟨hnew, hnodup⟩ := nodup_cons.mp hnodup
    rw [flatMap_cons]
    have hrest : (typenames.flatMap fun t => reps.filter (·.typename = t)) =
        typenames.flatMap fun t => (reps.filter (¬ ·.typename = typename)).filter (·.typename = t) := by
      apply flatMap_congr
      intro t ht
      rw [filter_filter]
      apply filter_congr
      intro rep _
      by_cases heq : rep.typename = t
      · have hne : t ≠ typename := fun h => hnew (h ▸ ht)
        simp [heq, hne]
      · simp [heq]
    rw [hrest]
    refine (List.Perm.append_left _ (ih hnodup ?_)).trans ?_
    · intro rep hrep
      obtain ⟨hmem, hne⟩ := mem_filter.mp hrep
      exact (mem_cons.mp (hall rep hmem)).resolve_left (of_decide_eq_true hne)
    · have hsplit := filter_append_perm (fun rep : EntityRepresentation => decide (rep.typename = typename)) reps
      simpa using hsplit

theorem groups_perm (reps : List EntityRepresentation) :
    ((groupEntitiesByTypename reps).flatMap Prod.snd).Perm reps := by
  unfold groupEntitiesByTypename
  rw [flatMap_map]
  apply flatMap_filter_perm (nodup_dedup _)
  intro rep hrep
  exact mem_dedup.mpr (mem_map.mpr ⟨rep, hrep, rfl⟩)

/-! ### Numbering -/

theorem number_groups {α β : Type} (f : α → List β) (groups : List α) (results : List (Nat × β)) :
    groups.foldl (fun results group => results ++ ((f group).zipIdx results.length).map Prod.swap) results =
      results ++ ((groups.flatMap f).zipIdx results.length).map Prod.swap := by
  induction groups generalizing results with
  | nil => simp
  | cons group groups ih =>
    rw [foldl_cons, ih, flatMap_cons, zipIdx_append, map_append, append_assoc]
    simp [Nat.add_comm]

theorem numbered_in_order {β : Type} (results : List β) (n : Nat) :
    ((results.zipIdx n).map Prod.swap).Pairwise fun a b => decide (a.1 ≤ b.1) = true := by
  induction results generalizing n with
  | nil => exact List.Pairwise.nil
  | cons b results ih =>
    rw [zipIdx_cons, map_cons]
    refine List.Pairwise.cons ?_ (ih (n + 1))
    intro e he
    obtain ⟨x, hx, rfl⟩ := mem_map.mp he
    apply decide_eq_true
    exact Nat.le_of_succ_le (le_snd_of_mem_zipIdx hx)

/-- The results stand in the order of the groups. -/
theorem batchLoadEntities_eq {grouped : List (String × List EntityRepresentation)}
    (hsize : reps.length ≤ 1000) (hvalid : validateRepresentations metadata reps = .ok ())
    (hperm : grouped.Perm (groupEntitiesByTypename reps)) :
    batchLoadEntities metadata executeRawQuery selection grouped reps =
      .ok (grouped.flatMap (resolveGroup metadata executeRawQuery selection)) := by
  unfold batchLoadEntities
  rw [if_neg (Nat.not_lt_of_le hsize), hvalid, ok_bind]
  cases reps with
  | nil =>
    rw [List.Perm.eq_nil hperm]
    rfl
  | cons rep reps =>
    dsimp only
    rw [if_neg (by simp), number_groups, nil_append, mergeSort_of_pairwise (numbered_in_order _ _),
      map_map]
    exact congrArg ok (zipIdx_map_fst 0 _)

/-! ### Keys -/

variable {typename : String}

theorem keyOf_eq_some :
    keyOf metadata typename = some (t, key) ↔
      metadata.find? (fun t => t.name = typename) = some t ∧ t.keys.head? = some key := by
  unfold keyOf
  cases metadata.find? (fun t => t.name = typename) with
  | none => simp
  | some t' =>
    cases hhead : t'.keys.head? with
    | none =>
      simp only [Option.bind_eq_bind, Option.bind_some, hhead, Option.bind_none, reduceCtorEq, false_iff,
        Option.some.injEq, not_and]
      rintro rfl
      rw [hhead]
      exact nofun
    | some key' =>
      simp only [Option.bind_eq_bind, Option.bind_some, hhead, Option.pure_def, Option.some.injEq, Prod.mk.injEq]
      constructor
      · rintro ⟨rfl, rfl⟩
        exact ⟨rfl, hhead⟩
      · rintro ⟨rfl, h⟩
        rw [hhead] at h
        exact ⟨rfl, Option.some.inj h⟩

variable {field : String}

theorem lookup_of_valid (hvalid : validateRepresentations metadata reps = .ok ())
    (hrep : rep ∈ reps) (hkey : keyOf metadata rep.typename = some (t, key)) (hfield : field ∈ key.fields) :
    ∃ value, rep.keyFields.lookup field = some value := by
  have hnone : representationErrors metadata rep = [] := by
    unfold validateRepresentations at hvalid
    dsimp only at hvalid
    split_ifs at hvalid with hempty
    exact flatMap_eq_nil_iff.mp (isEmpty_iff.mp hempty) rep hrep
  obtain ⟨hfind, hhead⟩ := keyOf_eq_some.mp hkey
  unfold representationErrors at hnone
  simp only [hfind, hhead] at hnone
  rw [map_eq_nil_iff, filter_eq_nil_iff] at hnone
  cases hlookup : rep.keyFields.lookup field with
  | none => exact absurd (by rw [hlookup]; rfl) (hnone field hfield)
  | some value => exact ⟨value, rfl⟩

theorem repKeyTexts_eq {value : String → Json}
    (hvalue : ∀ field ∈ key.fields, rep.keyFields.lookup field = some (value field)) :
    repKeyTexts key rep = key.fields.map fun field => keyText (value field) := by
  unfold repKeyTexts
  rw [← filterMap_eq_map]
  apply filterMap_congr
  intro field hfield
  rw [hvalue field hfield]
  rfl

theorem valueToString_eq {value : Json} (harr : value.asArray? = none) (hobj : value.asObject? = none) :
    valueToString value = .ok (keyText value) := by
  cases value with
  | null => rfl
  | bool b => rfl
  | num n => rfl
  | str s => rfl
  | arr items => cases harr
  | obj entries => cases hobj

theorem keyTuple_eq (hvalid : ∀ field ∈ key.fields, ∃ value, rep.keyFields.lookup field = some value)
    (hplain : ∀ field ∈ key.fields, ∀ value, rep.keyFields.lookup field = some value →
      value.asArray? = none ∧ value.asObject? = none) :
    keyTuple key rep = .ok (repKeyTexts key rep) := by
  have hvalue : ∀ field ∈ key.fields, rep.keyFields.lookup field =
      some ((rep.keyFields.lookup field).getD .null) := by
    intro field hfield
    obtain ⟨value, h⟩ := hvalid field hfield
    rw [h]
    rfl
  rw [repKeyTexts_eq hvalue]
  apply mapM_of_forall
  intro field hfield
  obtain ⟨harr, hobj⟩ := hplain field hfield _ (hvalue field hfield)
  rw [hvalue field hfield]
  exact valueToString_eq harr hobj

variable {fields : List String} (record : Record)

theorem lookup_project :
    (project fields record).lookup field = if field ∈ fields then some (record field) else none := by
  induction fields with
  | nil => rfl
  | cons f fields ih =>
    show List.lookup field ((f, record f) :: project fields record) = _
    rw [lookup_cons, ih]
    by_cases heq : field = f
    · simp [heq]
    · simp [heq, beq_eq_false_iff_ne.mpr heq]

theorem rowKeyTexts_project (h : ∀ field ∈ key.fields, field ∈ fields) :
    rowKeyTexts key (project fields record) = some (recordTexts key record) := by
  unfold rowKeyTexts recordTexts
  generalize key.fields = names at h
  induction names with
  | nil => rfl
  | cons name names ih =>
    have hrest := ih fun field hfield => h field (mem_cons_of_mem _ hfield)
    rw [mapM_cons, hrest, lookup_project, if_pos (h name mem_cons_self)]
    rfl

theorem rowKeyTexts_missing
    (hfield : field ∈ key.fields) (hmissing : field ∉ fields) : rowKeyTexts key (project fields record) = none := by
  unfold rowKeyTexts
  generalize key.fields = names at hfield
  induction names with
  | nil => cases hfield
  | cons name names ih =>
    rw [mapM_cons]
    rcases mem_cons.mp hfield with rfl | hfield
    · rw [lookup_project, if_neg hmissing]
      rfl
    · rw [ih hfield]
      cases Option.map keyText (List.lookup name (project fields record)) <;> rfl

theorem mem_selectFields (hhead : t.keys.head? = some key)
    (hfield : field ∈ key.fields) (hmeta : field ≠ "__typename") : field ∈ selectFields t selection := by
  have hkept : ∀ (names fields : List String), (field ∈ names ∨ field ∈ fields) →
      field ∈ names.foldl (fun fields f => if f ∈ fields then fields else fields ++ [f]) fields := by
    intro names
    induction names with
    | nil => exact fun fields h => h.resolve_left not_mem_nil
    | cons name names ih =>
      intro fields h
      rw [foldl_cons]
      apply ih
      by_cases hname : name ∈ fields
      · rw [if_pos hname]
        rcases h with h | h
        · rcases mem_cons.mp h with rfl | h
          · exact .inr hname
          · exact .inl h
        · exact .inr h
      · rw [if_neg hname, mem_append, mem_singleton]
        rcases h with h | h
        · rcases mem_cons.mp h with h | h
          · exact .inr (.inr h)
          · exact .inl h
        · exact .inr (.inl h)
  refine mem_filter.mpr ⟨hkept _ _ (.inl ?_), decide_eq_true hmeta⟩
  exact mem_flatMap.mpr ⟨key, mem_of_mem_head? hhead, hfield⟩

theorem typename_not_selected (t : FederatedType) (selection : List String) :
    "__typename" ∉ selectFields t selection := by
  intro h
  exact of_decide_eq_true (mem_filter.mp h).2 rfl

/-! ### Rows of a group -/

theorem eq_of_sameKey {rows : List Record}
    (hunique : rows.Pairwise fun a b => ¬ SameKey key a b) {a b : Record} (ha : a ∈ rows) (hb : b ∈ rows)
    (hsame : SameKey key a b) : a = b := by
  by_contra hne
  have hsymm : Std.Symm fun a b : Record => ¬ SameKey key a b :=
    ⟨fun _ _ h hba => h ⟨hba.2.1, hba.1, hba.2.2.symm⟩⟩
  exact hunique.forall ha hb hne hsame

variable {db : Database}

theorem rowFor_some {r : Record} (h : rowFor db key rep = some r) :
    r ∈ db rep.typename.toLower ∧ KeyHeld key r ∧ recordTexts key r = repKeyTexts key rep :=
  ⟨mem_of_find?_eq_some h, by simpa using find?_some h⟩

theorem rowFor_none
    (h : rowFor db key rep = none) {r : Record} (hr : r ∈ db rep.typename.toLower) (hheld : KeyHeld key r) :
    recordTexts key r ≠ repKeyTexts key rep := by
  intro htexts
  have hno := find?_eq_none.mp h r hr
  simp [hheld, htexts] at hno

/-- The map of rows by key texts. -/
def rowMap (key : KeyDirective) (rows : List Row) : List (List String × Row) :=
  rows.foldl (fun rowMap row =>
    match rowKeyTexts key row with
    | some texts => (texts, row) :: rowMap
    | none => rowMap) []

theorem rowMap_eq (h : ∀ field ∈ key.fields, field ∈ fields)
    (records : List Record) : rowMap key (records.map (project fields)) =
      (records.map fun r => (recordTexts key r, project fields r)).reverse := by
  have hfrom : ∀ rowMap, (records.map (project fields)).foldl (fun rowMap row =>
      match rowKeyTexts key row with
      | some texts => (texts, row) :: rowMap
      | none => rowMap) rowMap = (records.map fun r => (recordTexts key r, project fields r)).reverse ++ rowMap := by
    induction records with
    | nil => exact fun _ => rfl
    | cons r records ih =>
      intro rowMap
      rw [map_cons, foldl_cons, rowKeyTexts_project r h, ih, map_cons, reverse_cons,
        append_assoc]
      rfl
  rw [rowMap, hfrom, append_nil]

theorem rowMap_missing (hfield : field ∈ key.fields)
    (hmissing : field ∉ fields) (records : List Record) : rowMap key (records.map (project fields)) = [] := by
  unfold rowMap
  induction records with
  | nil => rfl
  | cons r records ih =>
    rw [map_cons, foldl_cons, rowKeyTexts_missing r hfield hmissing]
    exact ih

/-- Matching by texts finds the row with the key of the representation. -/
theorem lookup_rowMap {records : List Record} (hfields : ∀ field ∈ key.fields, field ∈ fields)
    (hunique : (db rep.typename.toLower).Pairwise fun a b => ¬ SameKey key a b)
    (hsound : ∀ r ∈ records, r ∈ db rep.typename.toLower ∧ KeyHeld key r)
    (hcomplete : ∀ r ∈ db rep.typename.toLower, KeyHeld key r → recordTexts key r = repKeyTexts key rep →
      r ∈ records) :
    (rowMap key (records.map (project fields))).lookup (repKeyTexts key rep) =
      (rowFor db key rep).map (project fields) := by
  have hfound : ∀ row, (rowMap key (records.map (project fields))).lookup (repKeyTexts key rep) = some row →
      ∃ r ∈ records, recordTexts key r = repKeyTexts key rep ∧ project fields r = row := by
    intro row hrow
    rw [rowMap_eq hfields] at hrow
    obtain ⟨before, after, heq, -⟩ := lookup_eq_some_iff.mp hrow
    have hmem : (repKeyTexts key rep, row) ∈ (records.map fun r => (recordTexts key r, project fields r)).reverse := by
      rw [heq]
      exact mem_append_right _ mem_cons_self
    obtain ⟨r, hr, hpair⟩ := mem_map.mp (mem_reverse.mp hmem)
    exact ⟨r, hr, congrArg Prod.fst hpair, congrArg Prod.snd hpair⟩
  cases hrow : rowFor db key rep with
  | none =>
    cases hlookup : (rowMap key (records.map (project fields))).lookup (repKeyTexts key rep) with
    | none => rfl
    | some row =>
      obtain ⟨r, hr, htexts, -⟩ := hfound row hlookup
      exact absurd htexts (rowFor_none hrow (hsound r hr).1 (hsound r hr).2)
  | some r =>
    obtain ⟨hmem, hheld, htexts⟩ := rowFor_some hrow
    cases hlookup : (rowMap key (records.map (project fields))).lookup (repKeyTexts key rep) with
    | none =>
      rw [rowMap_eq hfields, lookup_eq_none_iff] at hlookup
      have hin : (recordTexts key r, project fields r) ∈
          (records.map fun r => (recordTexts key r, project fields r)).reverse :=
        mem_reverse.mpr (mem_map.mpr ⟨r, hcomplete r hmem hheld htexts, rfl⟩)
      have hne := hlookup _ hin
      rw [htexts] at hne
      simp at hne
    | some row =>
      obtain ⟨r', hr', htexts', rfl⟩ := hfound row hlookup
      have hsame : SameKey key r' r := ⟨(hsound r' hr').2, hheld, htexts'.trans htexts.symm⟩
      rw [eq_of_sameKey hunique (hsound r' hr').1 hmem hsame]
      rfl

theorem projectResults_eq {rows : List Row} (hhead : t.keys.head? = some key)
    (group : List EntityRepresentation) (typename : String) : projectResults rows group t typename =
      .ok (group.map fun rep => ((rowMap key rows).lookup (repKeyTexts key rep)).map (entityOf typename)) := by
  unfold projectResults
  rw [hhead]
  rfl

/-! ### Resolution of a group -/

theorem resolveEntitiesFromDb_eq
    (hkey : keyOf metadata typename = some (t, key)) {group : List EntityRepresentation} (hgroup : group ≠ [])
    (hsafe : isSafeSqlIdentifier typename = true) :
    resolveEntitiesFromDb metadata executeRawQuery selection typename group =
      (group.mapM (keyTuple key) >>= fun tuples =>
        executeRawQuery ⟨selectFields t selection, typename.toLower, key.fields, tuples⟩ >>= fun rows =>
        projectResults rows group t typename) := by
  obtain ⟨hfind, hhead⟩ := keyOf_eq_some.mp hkey
  have htype : findFederationType typename metadata = .ok t := by
    unfold findFederationType
    rw [hfind]
    rfl
  have hdirective : getKeyDirective t = .ok key := by
    unfold getKeyDirective
    rw [hhead]
    rfl
  unfold resolveEntitiesFromDb constructWhereInClause
  rw [if_neg (by simpa using hgroup), hsafe, if_neg (by decide), htype, ok_bind, ok_bind, hdirective,
    ok_bind]
  cases group.mapM (keyTuple key) <;> rfl

/-- A readable group gives each of its representations the row with its key texts. -/
theorem resolveGroup_readable
    (hkey : keyOf metadata typename = some (t, key)) (hvalid : validateRepresentations metadata reps = .ok ())
    (hunique : UniqueKeys metadata db) (hanswers : Answers db executeRawQuery)
    (hread : Readable reps typename key) {group : List EntityRepresentation} (hgroup : group ≠ [])
    (hmem : ∀ rep ∈ group, rep ∈ reps ∧ rep.typename = typename) :
    resolveGroup metadata executeRawQuery selection (typename, group) = group.map fun rep =>
      (rowFor db key rep).map fun r => entityOf typename (project (selectFields t selection) r) := by
  obtain ⟨hsafe, hfields, hmeta, hplain⟩ := hread
  obtain ⟨-, hhead⟩ := keyOf_eq_some.mp hkey
  have htuples : group.mapM (keyTuple key) = .ok (group.map (repKeyTexts key)) := by
    apply mapM_of_forall
    intro rep hrep
    obtain ⟨hin, heq⟩ := hmem rep hrep
    apply keyTuple_eq
    · intro field hfield
      exact lookup_of_valid hvalid hin (heq ▸ hkey) hfield
    · exact hplain rep hin heq
  obtain ⟨records, hrows, hsound, hcomplete⟩ := hanswers
    ⟨selectFields t selection, typename.toLower, key.fields, group.map (repKeyTexts key)⟩ hfields
  unfold resolveGroup
  dsimp only
  rw [resolveEntitiesFromDb_eq hkey hgroup hsafe, htuples, ok_bind, hrows, ok_bind,
    projectResults_eq hhead]
  apply map_congr_left
  intro rep hrep
  obtain ⟨hin, rfl⟩ := hmem rep hrep
  have hlookup : (rowMap key (records.map (project (selectFields t selection)))).lookup (repKeyTexts key rep) =
      (rowFor db key rep).map (project (selectFields t selection)) := by
    apply lookup_rowMap
    · intro field hfield
      exact mem_selectFields hhead hfield fun h => hmeta (h ▸ hfield)
    · exact hunique rep.typename t key hkey
    · exact hsound
    · intro r hr hheld htexts
      apply hcomplete r hr hheld
      rw [show recordTexts ⟨key.fields⟩ r = repKeyTexts key rep from htexts]
      exact mem_map.mpr ⟨rep, hrep, rfl⟩
  rw [hlookup, Option.map_map]
  rfl

/-- A group that is not readable gives nothing. -/
theorem resolveGroup_unreadable (hkey : keyOf metadata typename = some (t, key)) (hanswers : Answers db executeRawQuery)
    (hempty : key.fields = [] → ∀ st, st.keyFields = [] → ∃ e, executeRawQuery st = .error e)
    (hread : ¬ Readable reps typename key) (hgroup : reps.filter (·.typename = typename) ≠ []) :
    resolveGroup metadata executeRawQuery selection (typename, reps.filter (·.typename = typename)) =
      (reps.filter (·.typename = typename)).map fun _ => none := by
  obtain ⟨-, hhead⟩ := keyOf_eq_some.mp hkey
  unfold resolveGroup
  dsimp only
  cases hresult : resolveEntitiesFromDb metadata executeRawQuery selection typename
      (reps.filter (·.typename = typename)) with
  | error e => rfl
  | ok entities =>
    dsimp only
    have hsafe : isSafeSqlIdentifier typename = true := by
      by_contra hsafe
      unfold resolveEntitiesFromDb at hresult
      rw [if_neg (by simpa using hgroup), Bool.eq_false_of_not_eq_true hsafe, if_pos (by decide)] at hresult
      cases hresult
    rw [resolveEntitiesFromDb_eq hkey hgroup hsafe] at hresult
    obtain ⟨tuples, htuples, hresult⟩ := bind_eq_ok.mp hresult
    obtain ⟨rows, hrows, hresult⟩ := bind_eq_ok.mp hresult
    rw [projectResults_eq hhead] at hresult
    have hfields : key.fields ≠ [] := by
      intro hfields
      obtain ⟨e, herror⟩ := hempty hfields ⟨selectFields t selection, typename.toLower, key.fields, tuples⟩ hfields
      rw [hrows] at herror
      cases herror
    have hmeta : "__typename" ∈ key.fields := by
      by_contra hmeta
      refine hread ⟨hsafe, hfields, hmeta, ?_⟩
      intro rep hrep htype field hfield value hvalue
      have hin : rep ∈ reps.filter (·.typename = typename) := mem_filter.mpr ⟨hrep, decide_eq_true htype⟩
      obtain ⟨tuple, htuple⟩ := mapM_mem htuples hin
      obtain ⟨s, hs⟩ := mapM_mem htuple hfield
      rw [hvalue] at hs
      cases value with
      | arr items => cases hs
      | obj entries => cases hs
      | _ => exact ⟨rfl, rfl⟩
    obtain ⟨records, hanswer, -⟩ := hanswers
      ⟨selectFields t selection, typename.toLower, key.fields, tuples⟩ hfields
    rw [hanswer] at hrows
    rw [← ok.inj hresult, ← ok.inj hrows,
      rowMap_missing hmeta (typename_not_selected t selection)]
    rfl

theorem resolveGroup_keyless (hkey : keyOf metadata typename = none) (group : List EntityRepresentation) :
    resolveGroup metadata executeRawQuery selection (typename, group) = group.map fun _ => none := by
  unfold resolveGroup
  dsimp only
  cases hresult : resolveEntitiesFromDb metadata executeRawQuery selection typename group with
  | error e => rfl
  | ok entities =>
    unfold resolveEntitiesFromDb constructWhereInClause findFederationType getKeyDirective at hresult
    unfold keyOf at hkey
    cases hfind : metadata.find? (fun t => t.name = typename) with
    | none =>
      rw [hfind] at hresult
      split_ifs at hresult with hgroup hsafe
      · rw [isEmpty_iff.mp hgroup, ← ok.inj hresult]
        rfl
      · cases hresult
    | some t =>
      rw [hfind] at hresult hkey
      have hhead : t.keys.head? = none := by
        cases hhead : t.keys.head? with
        | none => rfl
        | some key => simp [hhead] at hkey
      split_ifs at hresult with hgroup hsafe
      · rw [isEmpty_iff.mp hgroup, ← ok.inj hresult]
        rfl
      · simp only [okOr, ok_bind, hhead] at hresult
        cases hresult

/-! ### Types of results -/

/-- The type an entity says it is of. -/
def typenameOf : Option Json → Option String
  | some (.obj entries) => (Json.lookup "__typename" entries).bind Json.asStr?
  | _ => none

theorem typenameOf_entityOf (typename : String) (row : Row) :
    typenameOf (some (entityOf typename row)) = some typename := by
  unfold entityOf typenameOf
  dsimp only
  rw [MapEntries.lookup_insertEntry, if_pos rfl]
  rfl

/-- Every representation of a group has a result, and entities are of the type of the group. -/
theorem resolveGroup_shape (group : String × List EntityRepresentation) :
    (resolveGroup metadata executeRawQuery selection group).length = group.2.length ∧
    ∀ x ∈ resolveGroup metadata executeRawQuery selection group, x = none ∨ typenameOf x = some group.1 := by
  have hnone : ∀ reps : List EntityRepresentation, (reps.map fun _ => (none : Option Json)).length = reps.length ∧
      ∀ x ∈ reps.map fun _ => (none : Option Json), x = none ∨ typenameOf x = some group.1 := by
    intro reps
    refine ⟨length_map _, ?_⟩
    intro x hx
    obtain ⟨_, -, rfl⟩ := mem_map.mp hx
    exact .inl rfl
  unfold resolveGroup
  cases hresult : resolveEntitiesFromDb metadata executeRawQuery selection group.1 group.2 with
  | error e => exact hnone group.2
  | ok entities =>
    dsimp only
    unfold resolveEntitiesFromDb at hresult
    split_ifs at hresult with hgroup hsafe
    · rw [isEmpty_iff.mp hgroup, ← ok.inj hresult]
      exact hnone []
    · obtain ⟨t, -, hresult⟩ := bind_eq_ok.mp hresult
      obtain ⟨clause, -, hresult⟩ := bind_eq_ok.mp hresult
      obtain ⟨rows, -, hresult⟩ := bind_eq_ok.mp hresult
      cases hhead : t.keys.head? with
      | none =>
        unfold projectResults at hresult
        rw [hhead] at hresult
        dsimp only at hresult
        split_ifs at hresult
        rw [← ok.inj hresult]
        exact hnone group.2
      | some key =>
        rw [projectResults_eq hhead] at hresult
        rw [← ok.inj hresult]
        refine ⟨length_map _, ?_⟩
        intro x hx
        obtain ⟨rep, -, rfl⟩ := mem_map.mp hx
        cases (rowMap key rows).lookup (repKeyTexts key rep) with
        | none => exact .inl rfl
        | some row => exact .inr (typenameOf_entityOf group.1 row)

theorem groups_of_one (hreps : reps ≠ []) (hone : ∀ rep ∈ reps, rep.typename = typename) :
    groupEntitiesByTypename reps = [(typename, reps)] := by
  have hmap : reps.map EntityRepresentation.typename = List.replicate reps.length typename := by
    rw [← map_const']
    exact map_congr_left hone
  have hfilter : reps.filter (·.typename = typename) = reps :=
    filter_eq_self.mpr fun rep hrep => decide_eq_true (hone rep hrep)
  unfold groupEntitiesByTypename
  rw [hmap, replicate_dedup fun h => hreps (length_eq_zero_iff.mp h), map_singleton, hfilter]

/-- A list with a marked element does not commute with one that has none. -/
theorem append_comm_nil {α : Type} {p : α → Bool} {as bs : List α} (h : as ++ bs = bs ++ as) {a : α} (ha : a ∈ as)
    (hp : p a = true) (hbs : ∀ b ∈ bs, p b = false) : bs = [] := by
  have hin : as.findIdx p < as.length := findIdx_lt_length_of_exists ⟨a, ha, hp⟩
  have hout : bs.findIdx p = bs.length := by
    apply findIdx_eq_length.mpr
    exact hbs
  have hidx : (as ++ bs).findIdx p = (bs ++ as).findIdx p := congrArg (List.findIdx p) h
  rw [findIdx_append, findIdx_append, if_pos hin, hout, if_neg (Nat.lt_irrefl _)] at hidx
  apply length_eq_zero_iff.mp
  omega

/-! ### A database with one row -/

/-- The row a representation asks for, alone in its table. -/
def oneRow (rep : EntityRepresentation) : Database := fun table =>
  if table = rep.typename.toLower then [fun field => .str (keyText ((rep.keyFields.lookup field).getD .null))] else []

theorem oneRow_unique (metadata : FederationMetadata) (rep : EntityRepresentation) :
    UniqueKeys metadata (oneRow rep) := by
  intro typename t key _
  unfold oneRow
  split_ifs
  · exact pairwise_singleton _ _
  · exact List.Pairwise.nil

theorem rowFor_oneRow (hvalid : ∀ field ∈ key.fields, ∃ value, rep.keyFields.lookup field = some value) :
    ∃ r, rowFor (oneRow rep) key rep = some r := by
  cases hrow : rowFor (oneRow rep) key rep with
  | some r => exact ⟨r, rfl⟩
  | none =>
    have hmem : (fun field => Json.str (keyText ((rep.keyFields.lookup field).getD .null))) ∈
        oneRow rep rep.typename.toLower := by
      unfold oneRow
      rw [if_pos rfl]
      exact mem_singleton_self _
    have hheld : KeyHeld key fun field => Json.str (keyText ((rep.keyFields.lookup field).getD .null)) := by
      intro field _ h
      cases h
    refine absurd ?_ (rowFor_none hrow hmem hheld)
    rw [@repKeyTexts_eq rep key fun field => (rep.keyFields.lookup field).getD .null]
    · rfl
    · intro field hfield
      obtain ⟨value, h⟩ := hvalid field hfield
      rw [h]
      rfl

open Classical in
/-- Statements answered with the rows whose keys are not null; one without key fields is refused. -/
noncomputable def answering (db : Database) (st : Statement) : Except FraiseQLError (List Row) :=
  if st.keyFields = [] then .error (.database "syntax error" none)
  else .ok (((db st.table).filter fun r => KeyHeld ⟨st.keyFields⟩ r).map (project st.fields))

theorem answering_answers (db : Database) : Answers db (answering db) := by
  classical
  intro st hst
  refine ⟨(db st.table).filter fun r => KeyHeld ⟨st.keyFields⟩ r, ?_, ?_, ?_⟩
  · unfold answering
    rw [if_neg hst]
  · intro r hr
    obtain ⟨hin, hheld⟩ := mem_filter.mp hr
    exact ⟨hin, of_decide_eq_true hheld⟩
  · intro r hr hheld _
    exact mem_filter.mpr ⟨hr, decide_eq_true hheld⟩

theorem answering_refuses (db : Database) {st : Statement} (hst : st.keyFields = []) :
    ∃ e, answering db st = .error e := by
  unfold answering
  rw [if_pos hst]
  exact ⟨_, rfl⟩

/-! ### Positions -/

section Positions

theorem entityFor_keyed {db : Database} (hkey : keyOf metadata rep.typename = some (t, key))
    (hnull : NonNull key rep) : entityFor metadata selection db rep =
      (rowFor db key rep).map fun r => entityOf rep.typename (project (selectFields t selection) r) := by
  unfold entityFor
  rw [hkey]
  exact if_pos hnull

theorem entityFor_null {db : Database} (hkey : keyOf metadata rep.typename = some (t, key))
    (hnull : ¬ NonNull key rep) : entityFor metadata selection db rep = none := by
  unfold entityFor
  rw [hkey]
  exact if_neg hnull

theorem entityFor_keyless {db : Database} (hkey : keyOf metadata rep.typename = none) :
    entityFor metadata selection db rep = none := by
  unfold entityFor
  rw [hkey]

theorem group_ne_nil (hrep : rep ∈ reps) : reps.filter (·.typename = rep.typename) ≠ [] :=
  ne_nil_of_mem (mem_filter.mpr ⟨hrep, decide_eq_true rfl⟩)

/-- The group of a readable representation contains its row. -/
theorem resolveGroup_oneRow (hvalid : validateRepresentations metadata reps = .ok ()) (hrep : rep ∈ reps)
    (hkey : keyOf metadata rep.typename = some (t, key)) (hread : Readable reps rep.typename key) :
    resolveGroup metadata (answering (oneRow rep)) selection
      (rep.typename, reps.filter (·.typename = rep.typename)) = (reps.filter (·.typename = rep.typename)).map fun r =>
        (rowFor (oneRow rep) key r).map fun row => entityOf rep.typename (project (selectFields t selection) row) := by
  apply resolveGroup_readable hkey hvalid (oneRow_unique metadata rep) (answering_answers _) hread (group_ne_nil hrep)
  intro other hother
  obtain ⟨hin, htype⟩ := mem_filter.mp hother
  exact ⟨hin, of_decide_eq_true htype⟩

section Correct

variable (hsize : reps.length ≤ 1000) (hvalid : validateRepresentations metadata reps = .ok ())
  (hcorrect : AnswersByPosition metadata selection reps)
include hsize hvalid hcorrect

/-- Whichever group is walked first, the answer is the same. -/
theorem flatMap_of_correct (db : Database) (hunique : UniqueKeys metadata db)
    {grouped : List (String × List EntityRepresentation)} (hperm : grouped.Perm (groupEntitiesByTypename reps)) :
    grouped.flatMap (resolveGroup metadata (answering db) selection) =
      reps.map (entityFor metadata selection db) := by
  have hresult := hcorrect grouped db (answering db) hperm hunique (answering_answers db)
  rw [batchLoadEntities_eq hsize hvalid hperm] at hresult
  exact ok.inj hresult

variable (hrep : rep ∈ reps) (hkey : keyOf metadata rep.typename = some (t, key))
include hrep hkey

theorem one_type_of_correct (hread : Readable reps rep.typename key) {other : EntityRepresentation}
    (hother : other ∈ reps) : other.typename = rep.typename := by
  classical
  by_contra hne
  have hgroup := group_mem hrep
  have hfirst := perm_cons_erase hgroup
  have hcomm := (flatMap_of_correct hsize hvalid hcorrect _ (oneRow_unique metadata rep) hfirst.symm).trans
    (flatMap_of_correct hsize hvalid hcorrect _ (oneRow_unique metadata rep)
      ((perm_append_singleton _ _).trans hfirst.symm)).symm
  rw [flatMap_cons, flatMap_append, flatMap_singleton] at hcomm
  obtain ⟨row, hrow⟩ := rowFor_oneRow fun field hfield => lookup_of_valid hvalid hrep hkey hfield
  have hresult : some (entityOf rep.typename (project (selectFields t selection) row)) ∈
      resolveGroup metadata (answering (oneRow rep)) selection
        (rep.typename, reps.filter (·.typename = rep.typename)) := by
    rw [resolveGroup_oneRow hvalid hrep hkey hread]
    refine mem_map.mpr ⟨rep, mem_filter.mpr ⟨hrep, decide_eq_true rfl⟩, ?_⟩
    rw [hrow]
    rfl
  have hrest := append_comm_nil (p := fun x => typenameOf x = some rep.typename) hcomm hresult
    (decide_eq_true (typenameOf_entityOf _ _)) ?_
  · have hothers : (other.typename, reps.filter (·.typename = other.typename)) ∈ (groupEntitiesByTypename reps).erase
        (rep.typename, reps.filter (·.typename = rep.typename)) :=
      ((groups_nodup reps).mem_erase_iff).mpr ⟨fun h => hne (congrArg Prod.fst h), group_mem hother⟩
    have hnil := flatMap_eq_nil_iff.mp hrest _ hothers
    have hlength := (@resolveGroup_shape metadata (answering (oneRow rep)) selection
      (other.typename, reps.filter (·.typename = other.typename))).1
    rw [hnil] at hlength
    exact group_ne_nil hother (length_eq_zero_iff.mp hlength.symm)
  · intro x hx
    obtain ⟨group, hgroup', hx⟩ := mem_flatMap.mp hx
    obtain ⟨hne', hmem⟩ := ((groups_nodup reps).mem_erase_iff).mp hgroup'
    apply decide_eq_false
    intro htype
    rcases (resolveGroup_shape group).2 x hx with rfl | hof
    · cases htype
    · have heq : group.1 = rep.typename := Option.some.inj (hof.symm.trans htype)
      apply hne'
      rw [← heq, ← (mem_groups hmem).1]

theorem nonNull_of_correct (hread : Readable reps rep.typename key) : NonNull key rep := by
  by_contra hnull
  have hone : ∀ other ∈ reps, other.typename = rep.typename := fun other hother =>
    one_type_of_correct hsize hvalid hcorrect hrep hkey hread hother
  have hfilter : reps.filter (·.typename = rep.typename) = reps :=
    filter_eq_self.mpr fun other hother => decide_eq_true (hone other hother)
  have hgroups := groups_of_one (ne_nil_of_mem hrep) hone
  have hresult := flatMap_of_correct hsize hvalid hcorrect _ (oneRow_unique metadata rep) (List.Perm.refl _)
  have hread := @resolveGroup_oneRow metadata selection reps rep t key hvalid hrep hkey hread
  rw [hfilter] at hread
  rw [hgroups, flatMap_singleton, hread] at hresult
  have hat := map_inj_left.mp hresult rep hrep
  obtain ⟨row, hrow⟩ := rowFor_oneRow fun field hfield => lookup_of_valid hvalid hrep hkey hfield
  rw [entityFor_null hkey hnull, hrow] at hat
  cases hat

theorem readable_of_correct (hnull : NonNull key rep) :
    Readable reps rep.typename key := by
  by_contra hread
  have hresult := flatMap_of_correct hsize hvalid hcorrect _ (oneRow_unique metadata rep) (List.Perm.refl _)
  obtain ⟨row, hrow⟩ := rowFor_oneRow fun field hfield => lookup_of_valid hvalid hrep hkey hfield
  have hmem : some (entityOf rep.typename (project (selectFields t selection) row)) ∈
      (groupEntitiesByTypename reps).flatMap (resolveGroup metadata (answering (oneRow rep)) selection) := by
    rw [hresult]
    refine mem_map.mpr ⟨rep, hrep, ?_⟩
    rw [entityFor_keyed hkey hnull, hrow]
    rfl
  obtain ⟨group, hgroup, hin⟩ := mem_flatMap.mp hmem
  rcases (resolveGroup_shape group).2 _ hin with h | hof
  · cases h
  · rw [typenameOf_entityOf] at hof
    have hpair : group = (rep.typename, reps.filter (·.typename = rep.typename)) := by
      rw [Option.some.inj hof, ← (mem_groups hgroup).1]
    rw [hpair, resolveGroup_unreadable hkey (answering_answers _) (fun _ _ hst => answering_refuses _ hst) hread
      (group_ne_nil hrep)] at hin
    obtain ⟨_, -, hnone⟩ := mem_map.mp hin
    cases hnone

end Correct

/-- With no key, or only keys that are null and cannot be read, every result is none. -/
theorem flatMap_of_none {db : Database} (hanswers : Answers db executeRawQuery)
    {grouped : List (String × List EntityRepresentation)} (hperm : grouped.Perm (groupEntitiesByTypename reps))
    (hnone : ∀ rep ∈ reps, ∀ t key, keyOf metadata rep.typename = some (t, key) →
      ¬ NonNull key rep ∧ ¬ Readable reps rep.typename key) :
    grouped.flatMap (resolveGroup metadata executeRawQuery selection) =
      reps.map (entityFor metadata selection db) := by
  have hgroups : ∀ group ∈ grouped, resolveGroup metadata executeRawQuery selection group =
      group.2.map fun _ => none := by
    intro group hgroup
    obtain ⟨hfilter, rep, hrep, htype⟩ := mem_groups (hperm.mem_iff.mp hgroup)
    have hpair : group = (rep.typename, reps.filter (·.typename = rep.typename)) := by
      rw [htype, ← hfilter]
    rw [hpair]
    cases hkey : keyOf metadata rep.typename with
    | none => exact resolveGroup_keyless hkey _
    | some pair =>
      obtain ⟨hnull, hread⟩ := hnone rep hrep pair.1 pair.2 hkey
      apply resolveGroup_unreadable hkey hanswers _ hread (group_ne_nil hrep)
      intro hfields
      exact absurd (fun field hfield => absurd hfield (hfields ▸ not_mem_nil)) hnull
  have hexpected : reps.map (entityFor metadata selection db) = reps.map fun _ => none := by
    apply map_congr_left
    intro rep hrep
    cases hkey : keyOf metadata rep.typename with
    | none => exact entityFor_keyless hkey
    | some pair => exact entityFor_null hkey (hnone rep hrep pair.1 pair.2 hkey).1
  have hflat : grouped.flatMap (resolveGroup metadata executeRawQuery selection) =
      (grouped.flatMap Prod.snd).map fun _ => none := by
    rw [map_flatMap]
    exact flatMap_congr hgroups
  have hlength : (grouped.flatMap Prod.snd).length = reps.length :=
    ((hperm.flatMap_right Prod.snd).trans (groups_perm reps)).length_eq
  rw [hflat, hexpected, map_const', map_const', hlength]

end Positions

end Groups

/-! ### Two types -/

def usersAndPosts : FederationMetadata := [⟨"User", [⟨["id"]⟩]⟩, ⟨"Post", [⟨["id"]⟩]⟩]

def userOne : EntityRepresentation := ⟨"User", [("id", .str "1")]⟩

def postOne : EntityRepresentation := ⟨"Post", [("id", .str "1")]⟩

/-- Every table has one row, with the text `1` in every column. -/
def rowOnes : Database := fun _ => [fun _ => .str "1"]

theorem rowOnes_unique (metadata : FederationMetadata) : UniqueKeys metadata rowOnes :=
  fun _ _ _ _ => pairwise_singleton _ _

def answerOnes (st : Statement) : Except FraiseQLError (List Row) := .ok [project st.fields fun _ => .str "1"]

theorem answerOnes_answers : Answers rowOnes answerOnes := by
  intro st _
  refine ⟨[fun _ => .str "1"], rfl, ?_, fun r hr _ _ => hr⟩
  intro r hr
  refine ⟨hr, fun field _ => ?_⟩
  rw [mem_singleton.mp hr]
  exact nofun

end FraiseQL.Federation
