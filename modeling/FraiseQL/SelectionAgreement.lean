import FraiseQL.ProjectionPushdown

/-! When two selections give the same value in every row of the database. A selected field is read under its
response key, so all that counts is the key, whether it is read as text, and for an object the fields that are
projected in it, where the last field under a key stands. Rows that tell two selections apart are built for
every other case. -/

namespace FraiseQL.SelectionAgreement

open Jsonb (Expr at? textOf buildEntries fieldPair)
open MapEntries ProjectionPushdown Option Json
open WhereFilter (CharCase toSnakeCase)

theorem selection_induction {P : FieldSelection → Prop}
    (h : ∀ name aliasName arguments nestedFields, (∀ sel ∈ nestedFields, P sel) →
      P (.mk name aliasName arguments nestedFields)) : ∀ sel, P sel := by
  intro sel
  refine @FieldSelection.rec P (fun sels => ∀ sel ∈ sels, P sel) h ?_ ?_ sel
  · intro sel hmem
    cases hmem
  · intro sel sels hsel hsels other hmem
    obtain rfl | hmem := List.mem_cons.mp hmem
    · exact hsel
    · exact hsels other hmem

/-! ### Agreement -/

/-- The last selection answered under a key. -/
def finalSelection (key : String) : List FieldSelection → Option FieldSelection
  | [] => none
  | sel :: sels =>
    (finalSelection key sels).or (if sel.name ≠ "__typename" ∧ sel.responseKey = key then some sel else none)

def SameKeys (sels sels' : List FieldSelection) : Prop := ∀ key, Answered key sels ↔ Answered key sels'

section Agreement

variable (schema : CompiledSchema)

mutual

/-- Two fields answered under one key agree: in both the same fields are projected, or both are read whole, as
text or not. -/
def Agree (parentType parentType' : String) (depth : Nat) : FieldSelection → FieldSelection → Prop
  | .mk name aliasName arguments nestedFields, sel' =>
    match openedType schema parentType depth (.mk name aliasName arguments nestedFields),
      openedType schema parentType' depth sel' with
    | some child, some child' => SameKeys nestedFields sel'.nestedFields ∧
        AllAgree child child' (depth + 1) (fun _ => True) nestedFields sel'.nestedFields
    | none, none => kindOf (fieldOf schema parentType name) = .text ↔
        kindOf (fieldOf schema parentType' sel'.name) = .text
    | _, _ => False

/-- Each field agrees with the last one that is answered under its key on the other side, as far as it is the
last on its own. -/
def AllAgree (parentType parentType' : String) (depth : Nat) (counts : String → Prop) :
    List FieldSelection → List FieldSelection → Prop
  | [], _ => True
  | sel :: sels, sels' =>
    (sel.name ≠ "__typename" → ¬Answered sel.responseKey sels → counts sel.responseKey →
      ∃ sel', finalSelection sel.responseKey sels' = some sel' ∧ Agree parentType parentType' depth sel sel') ∧
    AllAgree parentType parentType' depth counts sels sels'

end

end Agreement

/-! ### The last selection under a key -/

variable {key : String} {sels : List FieldSelection}

theorem finalSelection_isSome : (finalSelection key sels).isSome ↔ Answered key sels := by
  induction sels with
  | nil => simp [finalSelection, Answered]
  | cons sel sels ih =>
    rw [finalSelection, answered_cons, isSome_or, Bool.or_eq_true, ih, or_comm]
    split_ifs with h
    · simp [h]
    · simp only [isSome_none, Bool.false_eq_true, false_or, h]

theorem finalSelection_spec {sel : FieldSelection} (h : finalSelection key sels = some sel) :
    sel ∈ sels ∧ sel.name ≠ "__typename" ∧ sel.responseKey = key := by
  induction sels with
  | nil => cases h
  | cons first sels ih =>
    rw [finalSelection, or_eq_some_iff] at h
    obtain h | ⟨-, h⟩ := h
    · exact ⟨List.mem_cons_of_mem _ (ih h).1, (ih h).2⟩
    · split_ifs at h with hfirst
      obtain rfl := Option.some.inj h
      exact ⟨List.mem_cons_self, hfirst⟩

theorem finalSelection_none : finalSelection key sels = none ↔ ¬Answered key sels := by
  rw [← finalSelection_isSome, not_isSome_iff_eq_none]

theorem allAgree_iff {schema : CompiledSchema} {parentType parentType' : String} {depth : Nat}
    {counts : String → Prop} {sels' : List FieldSelection} :
    AllAgree schema parentType parentType' depth counts sels sels' ↔
      ∀ key sel, counts key → finalSelection key sels = some sel →
        ∃ sel', finalSelection key sels' = some sel' ∧ Agree schema parentType parentType' depth sel sel' := by
  induction sels with
  | nil => simp [AllAgree, finalSelection]
  | cons first sels ih =>
    rw [AllAgree, ih]
    constructor
    · rintro ⟨hfirst, hrest⟩ key sel hcounts hsel
      rw [finalSelection, or_eq_some_iff] at hsel
      obtain hsel | ⟨hnone, hsel⟩ := hsel
      · exact hrest key sel hcounts hsel
      · split_ifs at hsel with hkey
        obtain rfl := Option.some.inj hsel
        obtain ⟨hname, rfl⟩ := hkey
        exact hfirst hname (finalSelection_none.mp hnone) hcounts
    · intro hall
      refine ⟨?_, ?_⟩
      · intro hname hlast hcounts
        apply hall _ first hcounts
        rw [finalSelection, finalSelection_none.mpr hlast, if_pos ⟨hname, rfl⟩]
        rfl
      · intro key sel hcounts hsel
        apply hall key sel hcounts
        rw [finalSelection, hsel]
        rfl

/-! ### Values in rows -/

section Values

variable {cc : CharCase} {render : Json → String} {schema : CompiledSchema}

/-- The value of a selected field in a row. -/
def fieldValue (cc : CharCase) (render : Json → String) (schema : CompiledSchema) (parentType : String)
    (depth : Nat) (path : List String) (sel : FieldSelection) (data : Json) : Json :=
  (fieldPair cc path depth (typedField schema parentType depth sel)).2.eval render data

theorem finalValue_eq (parentType : String) (depth : Nat) (path : List String) (data : Json) (key : String)
    (sels : List FieldSelection) :
    finalValue key (valuePairs cc render schema data path depth parentType sels) =
      (finalSelection key sels).map fun sel => fieldValue cc render schema parentType depth path sel data := by
  induction sels with
  | nil => rfl
  | cons sel sels ih =>
    rw [valuePairs_cons, finalSelection, map_or, ← ih]
    split_ifs with htypename hkey hkey
    · exact absurd htypename hkey.1
    · rw [map_none, or_none]
    · rw [finalValue, if_pos hkey.2]
      rfl
    · rw [finalValue, if_neg fun h => hkey ⟨htypename, h⟩]
      rfl

theorem buildEntries_inj {pairs pairs' : List (String × Json)} :
    buildEntries pairs = buildEntries pairs' ↔ ∀ key, finalValue key pairs = finalValue key pairs' := by
  have hlookup : ∀ key pairs, lookup key (buildEntries pairs) = finalValue key pairs := by
    intro key pairs
    rw [buildEntries, lookup_insertAll, lookup_nil, or_none]
  constructor
  · intro heq key
    rw [← hlookup, ← hlookup, heq]
  · intro hfinal
    apply eq_of_lookup (insertAll_inOrder pairs List.Pairwise.nil) (insertAll_inOrder pairs' List.Pairwise.nil)
    intro key
    show lookup key (buildEntries pairs) = lookup key (buildEntries pairs')
    rw [hlookup, hlookup, hfinal]

/-- A row with a value at a path. -/
def nest : List String → Json → Json
  | [], value => value
  | key :: path, value => .obj [(key, nest path value)]

theorem at?_nest (path : List String) (value : Json) : at? path (nest path value) = some value := by
  induction path with
  | nil => rfl
  | cons key path ih =>
    rw [at?, List.foldl_cons]
    show path.foldl _ (lookup key [(key, nest path value)]) = _
    rw [lookup_cons, if_pos rfl]
    exact ih

theorem at?_null (path : List String) (key : String) : at? (path ++ [key]) .null = none := by
  have hnone : ∀ path : List String, path.foldl (fun value key => value.bind (get? key)) none = none := by
    intro path
    induction path with
    | nil => rfl
    | cons key path ih => exact ih
  cases path with
  | nil => rfl
  | cons first path => exact hnone (path ++ [key])

/-- What is done with a value on the way into a response keeps numbers, `null` and objects. -/
structure Keeps (f : Json → Json) : Prop where
  num : ∀ n, f (.num n) = .num n
  null : f .null = .null
  obj : ∀ entries, f (.obj entries) = .obj entries
  str : ∀ s n, f (.str s) ≠ .num n

theorem keeps_id : Keeps id where
  num _ := rfl
  null := rfl
  obj _ := rfl
  str _ _ := nofun

variable {parentType : String} {depth : Nat} {path : List String} {sel : FieldSelection}

/-- The value of a field that is read whole, in a row without it. -/
theorem fieldValue_missing (h : openedType schema parentType depth sel = none) :
    fieldValue cc render schema parentType depth path sel .null = .null := by
  rw [fieldValue, eval_closed h, ← at?_snoc, at?_null]
  split_ifs <;> rfl

/-- The value of such a field where a number is stored. -/
theorem fieldValue_number (h : openedType schema parentType depth sel = none) (n : JsonNumber) :
    fieldValue cc render schema parentType depth path sel
        (nest (path ++ [toSnakeCase cc sel.responseKey]) (.num n)) =
      if kindOf (fieldOf schema parentType sel.name) = .text then .str (render (.num n)) else .num n := by
  rw [fieldValue, eval_closed h, ← at?_snoc, at?_nest]
  rfl

variable {parentType' : String}

/-- Fields that are read whole show the same in every row when both are read as text or neither is. -/
theorem closed_iff {f : Json → Json} (hf : Keeps f) {sel' : FieldSelection} (hkey : sel.responseKey = sel'.responseKey)
    (h : openedType schema parentType depth sel = none) (h' : openedType schema parentType' depth sel' = none) :
    (∀ data, f (fieldValue cc render schema parentType depth path sel data) =
        f (fieldValue cc render schema parentType' depth path sel' data)) ↔
      (kindOf (fieldOf schema parentType sel.name) = .text ↔
        kindOf (fieldOf schema parentType' sel'.name) = .text) := by
  constructor
  · intro hsame
    let zero : JsonNumber := .int ⟨0, by decide⟩
    have hzero := hsame (nest (path ++ [toSnakeCase cc sel.responseKey]) (.num zero))
    rw [fieldValue_number h, hkey, fieldValue_number h'] at hzero
    -- a number is a text on one side only if it is on the other
    split_ifs at hzero with htext htext'
    · exact iff_of_true htext htext'
    · rw [hf.num] at hzero
      exact absurd hzero (hf.str _ _)
    · next htext' =>
        rw [hf.num] at hzero
        exact absurd hzero.symm (hf.str _ _)
    · next htext' => exact iff_of_false htext htext'
  · intro htext data
    rw [fieldValue, fieldValue, eval_closed h, eval_closed h', hkey]
    simp only [htext]

theorem opened_ne_closed {f : Json → Json} (hf : Keeps f) {child : String}
    {sel' : FieldSelection} (h : openedType schema parentType depth sel = some child)
    (h' : openedType schema parentType' depth sel' = none) :
    f (fieldValue cc render schema parentType depth path sel .null) ≠
      f (fieldValue cc render schema parentType' depth path sel' .null) := by
  rw [fieldValue_missing h', fieldValue, eval_opened h, hf.obj, hf.null]
  exact nofun

/-- Objects of projected fields are the same in every row when the fields are. -/
theorem entries_iff {sels sels' : List FieldSelection} (ih : ∀ sel ∈ sels, ∀ sel', sel.responseKey = sel'.responseKey →
      ((∀ data, fieldValue cc render schema parentType depth path sel data =
          fieldValue cc render schema parentType' depth path sel' data) ↔
        Agree schema parentType parentType' depth sel sel')) :
    (∀ data, buildEntries (valuePairs cc render schema data path depth parentType sels) =
        buildEntries (valuePairs cc render schema data path depth parentType' sels')) ↔
      SameKeys sels sels' ∧ AllAgree schema parentType parentType' depth (fun _ => True) sels sels' := by
  simp only [buildEntries_inj, finalValue_eq, allAgree_iff]
  constructor
  · intro hsame
    refine ⟨?_, ?_⟩
    · intro key
      have hnull := congrArg Option.isSome (hsame .null key)
      rw [isSome_map, isSome_map] at hnull
      rw [← finalSelection_isSome, ← finalSelection_isSome, hnull]
    · intro key sel _ hsel
      have hsome := hsame .null key
      rw [hsel, map_some, eq_comm, map_eq_some_iff] at hsome
      obtain ⟨sel', hsel', -⟩ := hsome
      obtain ⟨hmem, -, hkey⟩ := finalSelection_spec hsel
      refine ⟨sel', hsel', (ih sel hmem sel' (hkey.trans (finalSelection_spec hsel').2.2.symm)).mp ?_⟩
      intro data
      have hdata := hsame data key
      rw [hsel, hsel'] at hdata
      exact Option.some.inj hdata
  · rintro ⟨hkeys, hall⟩ data key
    cases hsel : finalSelection key sels with
    | none =>
      have hnone' : finalSelection key sels' = none := by
        rw [finalSelection_none, ← hkeys key, ← finalSelection_none]
        exact hsel
      rw [hnone']
      rfl
    | some sel =>
      obtain ⟨sel', hsel', hagree⟩ := hall key sel trivial hsel
      obtain ⟨hmem, -, hkey⟩ := finalSelection_spec hsel
      rw [hsel', map_some, map_some,
        (ih sel hmem sel' (hkey.trans (finalSelection_spec hsel').2.2.symm)).mpr hagree data]

variable (cc render schema) in
/-- Two fields under one key show the same in every row exactly when they agree. -/
theorem agree_iff : ∀ (sel sel' : FieldSelection) (f : Json → Json), Keeps f →
    ∀ (parentType parentType' : String) (depth : Nat) (path : List String), sel.responseKey = sel'.responseKey →
      ((∀ data, f (fieldValue cc render schema parentType depth path sel data) =
          f (fieldValue cc render schema parentType' depth path sel' data)) ↔
        Agree schema parentType parentType' depth sel sel') := by
  intro sel
  induction sel using selection_induction with
  | h name aliasName arguments nestedFields ih =>
    intro sel' f hf parentType parentType' depth path hkey
    rw [Agree]
    cases h : openedType schema parentType depth (.mk name aliasName arguments nestedFields) with
    | none =>
      cases h' : openedType schema parentType' depth sel' with
      | none => exact closed_iff hf hkey h h'
      | some child' => exact ⟨fun hsame => opened_ne_closed hf h' h (hsame .null).symm, False.elim⟩
    | some child =>
      cases h' : openedType schema parentType' depth sel' with
      | none => exact ⟨fun hsame => opened_ne_closed hf h h' (hsame .null), False.elim⟩
      | some child' =>
        simp only [fieldValue, eval_opened h, eval_opened h', hf.obj, obj.injEq, hkey]
        apply entries_iff
        intro sel hmem other hother
        exact ih sel hmem other id keeps_id child child' (depth + 1) _ hother

end Values

end FraiseQL.SelectionAgreement
