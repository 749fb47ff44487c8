import FraiseQL.Executor
import FraiseQL.SelectionAgreement

/-! What an authenticated query shows of a row of the database: the projection of the SQL, the projection in
memory and the masked fields put together. Two queries over one definition show the same of every row exactly
when their selections agree on the keys that are not masked. -/

namespace FraiseQL.ResponseRows

open Jsonb (Expr at? textOf buildEntries fieldPair)
open MapEntries ProjectionPushdown SelectionAgreement ResultProjector List
open WhereFilter (CharCase toSnakeCase)

/-! ### Masked fields -/

/-- The user may not read the field of the type with this name. -/
def denied (schema : CompiledSchema) (returnType : String) (ctx : SecurityContext) (key : String) : Bool :=
  match schema.security, schema.findType returnType with
  | some config, some typeDef =>
    (typeDef.fields.find? fun f => f.name = key).any fun field => !canAccessField ctx config field
  | _, _ => false

theorem classify_spec {ctx : SecurityContext} {config : SecurityConfig} {fields : List FieldDefinition}
    {names : List String} {access : FieldAccess} (h : classifyFieldAccess ctx config fields names = .ok access)
    (key : String) :
    let refused := (fields.find? fun f => f.name = key).any fun field => !canAccessField ctx config field
    (key ∈ access.allowed ↔ key ∈ names ∧ refused = false) ∧ (key ∈ access.masked ↔ key ∈ names ∧ refused = true) := by
  intro refused
  induction names generalizing access with
  | nil =>
    obtain rfl := Except.ok.inj h
    simp
  | cons name names ih =>
    have hcons : ∀ {a : FieldAccess}, classifyFieldAccess ctx config fields names = .ok a →
        ∀ hidden : Bool, (name = key → refused = hidden) →
        access = (if hidden then ⟨a.allowed, name :: a.masked⟩ else ⟨name :: a.allowed, a.masked⟩) →
        (key ∈ access.allowed ↔ key ∈ name :: names ∧ refused = false) ∧
          (key ∈ access.masked ↔ key ∈ name :: names ∧ refused = true) := by
      intro a ha hidden hname haccess
      obtain ⟨hallowed, hmasked⟩ := ih ha
      cases hidden with
      | false =>
        rw [if_neg Bool.false_ne_true] at haccess
        rw [haccess, mem_cons, mem_cons, hallowed, hmasked]
        by_cases hkey : key = name
        · simp [hkey, hname hkey.symm]
        · simp [hkey]
      | true =>
        rw [if_pos rfl] at haccess
        rw [haccess, mem_cons, mem_cons, hallowed, hmasked]
        by_cases hkey : key = name
        · simp [hkey, hname hkey.symm]
        · simp [hkey]
    rw [classifyFieldAccess] at h
    cases hfind : fields.find? fun f => f.name = name with
    | none =>
      rw [hfind] at h
      obtain ⟨a, ha, rfl⟩ := Outcome.map_eq_ok.mp h
      refine hcons ha false ?_ rfl
      rintro rfl
      show Option.any _ (fields.find? fun f => f.name = name) = false
      rw [hfind]
      rfl
    | some field =>
      have hrefused : name = key → refused = !canAccessField ctx config field := by
        rintro rfl
        show Option.any _ (fields.find? fun f => f.name = name) = _
        rw [hfind]
        rfl
      rw [hfind] at h
      dsimp only at h
      split_ifs at h with haccess
      · obtain ⟨a, ha, rfl⟩ := Outcome.map_eq_ok.mp h
        refine hcons ha false ?_ rfl
        intro hname
        rw [hrefused hname, haccess]
        rfl
      · cases hdeny : field.onDeny with
        | reject =>
          rw [hdeny] at h
          cases h
        | mask =>
          rw [hdeny] at h
          obtain ⟨a, ha, rfl⟩ := Outcome.map_eq_ok.mp h
          refine hcons ha true ?_ rfl
          intro hname
          rw [hrefused hname, Bool.not_eq_true _ |>.mp haccess]
          rfl

/-- The fields that pass are those selected, and those masked are the denied ones of them. -/
theorem access_spec {schema : CompiledSchema} {returnType : String} {names : List String} {ctx : SecurityContext}
    {access : FieldAccess} (h : applyFieldRbacFiltering schema returnType names ctx = .ok access) (key : String) :
    (key ∈ access.allowed ++ access.masked ↔ key ∈ names) ∧
      (access.masked.contains key = true ↔ key ∈ names ∧ denied schema returnType ctx key = true) := by
  rw [contains_iff_mem, mem_append]
  unfold applyFieldRbacFiltering at h
  unfold denied
  cases hsecurity : schema.security with
  | none =>
    rw [hsecurity] at h
    obtain rfl := Except.ok.inj h
    simp
  | some config =>
    cases htype : schema.findType returnType with
    | none =>
      rw [hsecurity, htype] at h
      obtain rfl := Except.ok.inj h
      simp
    | some typeDef =>
      rw [hsecurity, htype] at h
      dsimp only at h ⊢
      cases hclass : classifyFieldAccess ctx config typeDef.fields names with
      | error rejected =>
        rw [hclass] at h
        cases h
      | ok a =>
        rw [hclass] at h
        obtain rfl := Except.ok.inj h
        obtain ⟨hallowed, hmasked⟩ := classify_spec hclass key
        rw [hallowed, hmasked]
        refine ⟨?_, Iff.rfl⟩
        cases (typeDef.fields.find? fun f => f.name = key).any fun field => !canAccessField ctx config field <;>
          simp

mutual

theorem nullMaskedFields_nil : ∀ value : Json, nullMaskedFields [] value = value
  | .null => rfl
  | .bool _ => rfl
  | .num _ => rfl
  | .str _ => rfl
  | .arr items => by rw [nullMaskedFields, nullMaskedItems_nil items]
  | .obj entries => by
    rw [nullMaskedFields]
    exact congrArg Json.obj (map_id entries)

theorem nullMaskedItems_nil : ∀ items : List Json, nullMaskedItems [] items = items
  | [] => rfl
  | item :: items => by rw [nullMaskedItems, nullMaskedFields_nil item, nullMaskedItems_nil items]

end

variable (masked : List String)

theorem nullMaskedItems_map (items : List Json) :
    nullMaskedItems masked items = items.map (nullMaskedFields masked) := by
  induction items with
  | nil => rfl
  | cons item items ih => rw [nullMaskedItems, ih, map_cons]

theorem lookup_masked (entries : List (String × Json)) (key : String) :
    Json.lookup key (entries.map fun e => if masked.contains e.1 then (e.1, .null) else e) =
      (Json.lookup key entries).map fun value => if masked.contains key then .null else value := by
  induction entries with
  | nil => rfl
  | cons e entries ih =>
    obtain ⟨k, v⟩ := e
    rw [map_cons]
    have hfirst : (if masked.contains (k, v).1 then ((k, v).1, .null) else (k, v)) =
        (k, if masked.contains k then .null else v) := by
      split_ifs <;> rfl
    rw [hfirst, lookup_cons, lookup_cons, ih]
    by_cases hkey : k = key
    · rw [if_pos hkey, if_pos hkey, hkey]
      rfl
    · rw [if_neg hkey, if_neg hkey]

theorem masked_inOrder {entries : List (String × Json)} (h : InOrder entries) :
    InOrder (entries.map fun e => if masked.contains e.1 then (e.1, .null) else e) := by
  apply pairwise_map.mpr
  refine List.Pairwise.imp ?_ h
  intro a b hlt
  split_ifs <;> exact hlt

/-! ### A row in a response -/

section Row

variable (cc : CharCase) (render : Json → String) (parse : String → Option Json) (schema : CompiledSchema)

/-- What the SQL gives of a row: the projection, or the row when no field is selected. -/
def projected (m : QueryMatch) (data : Json) : Json :=
  if selects m.rootFields then
    .obj (buildEntries (valuePairs cc render schema data [] 0 m.queryDef.returnType m.rootFields))
  else data

/-- What the response shows of it. -/
def shown (m : QueryMatch) (access : FieldAccess) (data : Json) : Json :=
  nullMaskedFields access.masked
    ((ResultProjector.ofMatch parse (access.allowed ++ access.masked) m).project (projected cc render schema m data))

variable {cc render parse schema} {m m' : QueryMatch} {ctx : SecurityContext} {access access' : FieldAccess}

theorem keeps_projectNestedValue (p : ResultProjector) : Keeps p.projectNestedValue where
  num _ := rfl
  null := rfl
  obj _ := rfl
  str s n := by
    unfold projectNestedValue
    dsimp only
    cases p.parse s with
    | none => exact nofun
    | some value => cases value <;> exact nofun

theorem mem_access (h : applyFieldRbacFiltering schema m.queryDef.returnType (extractProjectionFields m) ctx =
    .ok access) (key : String) : key ∈ access.allowed ++ access.masked ↔ Answered key m.rootFields :=
  (access_spec h key).1.trans (mem_extractProjectionFields m key)

/-- What stands under a key of a shown row. -/
def shownValue (cc : CharCase) (render : Json → String) (parse : String → Option Json) (schema : CompiledSchema)
    (ctx : SecurityContext) (m : QueryMatch) (data : Json) (key : String) : Option Json :=
  ((finalSelection key m.rootFields).map fun sel =>
    if denied schema m.queryDef.returnType ctx key then .null
    else (ResultProjector.mk [] none parse).projectNestedValue
      (fieldValue cc render schema m.queryDef.returnType 0 [] sel data)).or
    (Json.lookup key (typenameEntries (typenameOf m)))

theorem shown_object (hselects : selects m.rootFields = true)
    (h : applyFieldRbacFiltering schema m.queryDef.returnType (extractProjectionFields m) ctx = .ok access)
    (data : Json) : ∃ entries, shown cc render parse schema m access data = .obj entries ∧ InOrder entries ∧
      ∀ key, Json.lookup key entries = shownValue cc render parse schema ctx m data key := by
  rw [shown, projected, if_pos hselects, project, projectJsonObject_eq, nullMaskedFields]
  refine ⟨_, rfl, masked_inOrder _ (projectFields_inOrder _ _ _ (typenameEntries_inOrder _)), ?_⟩
  intro key
  have hfinal : Json.lookup key (buildEntries (valuePairs cc render schema data [] 0 m.queryDef.returnType
      m.rootFields)) = (finalSelection key m.rootFields).map fun sel =>
        fieldValue cc render schema m.queryDef.returnType 0 [] sel data := by
    rw [buildEntries, lookup_insertAll, lookup_nil, Option.or_none, finalValue_eq]
  have hmasked : Answered key m.rootFields →
      access.masked.contains key = denied schema m.queryDef.returnType ctx key := by
    intro hkey
    rw [Bool.eq_iff_iff, (access_spec h key).2, mem_extractProjectionFields]
    exact and_iff_right hkey
  rw [lookup_masked, lookup_projectFields, hfinal, shownValue]
  show Option.map _ (if key ∈ access.allowed ++ access.masked then _ else _) = _
  by_cases hkey : Answered key m.rootFields
  · obtain ⟨sel, hsel⟩ := Option.isSome_iff_exists.mp (finalSelection_isSome.mpr hkey)
    rw [if_pos ((mem_access h key).mpr hkey), hsel, hmasked hkey]
    rfl
  · have hplain : access.masked.contains key = false := by
      rw [← Bool.not_eq_true, (access_spec h key).2, mem_extractProjectionFields]
      exact fun hmem => hkey hmem.1
    rw [if_neg fun hmem => hkey ((mem_access h key).mp hmem), finalSelection_none.mpr hkey, hplain]
    exact congrFun Option.map_id _

/-- A row shown by a query without fields. -/
theorem shown_bare (hselects : selects m.rootFields = false)
    (h : applyFieldRbacFiltering schema m.queryDef.returnType (extractProjectionFields m) ctx = .ok access)
    (data : Json) :
    shown cc render parse schema m access data = (mk [] (typenameOf m) parse).project data := by
  have hnone : ∀ key, key ∉ access.allowed ++ access.masked := by
    intro key hmem
    obtain ⟨sel, hsel, hname, -⟩ := (mem_access h key).mp hmem
    rw [selects, any_eq_false] at hselects
    exact hselects sel hsel (decide_eq_true hname)
  have hnil : access.allowed ++ access.masked = [] := eq_nil_iff_forall_not_mem.mpr hnone
  rw [shown, projected, if_neg (by rw [hselects]; exact Bool.false_ne_true), hnil, (append_eq_nil_iff.mp hnil).2,
    nullMaskedFields_nil]
  rfl

/-! ### Two queries -/

/-- The selections have the same keys, both or neither ask for the type name unless a field stands under its
key, and the fields agree under the keys that are not masked. -/
def SelectionsAgree (schema : CompiledSchema) (ctx : SecurityContext) (m m' : QueryMatch) : Prop :=
  SameKeys m.rootFields m'.rootFields ∧
  (ResultProjector.wantsTypename m = ResultProjector.wantsTypename m' ∨ Answered "__typename" m.rootFields) ∧
  AllAgree schema m.queryDef.returnType m'.queryDef.returnType 0
    (fun key => denied schema m.queryDef.returnType ctx key = false) m.rootFields m'.rootFields

theorem selects_iff {sels : List FieldSelection} : selects sels = true ↔ ∃ key, Answered key sels := by
  rw [selects, any_eq_true]
  constructor
  · rintro ⟨sel, hmem, hname⟩
    exact ⟨_, sel, hmem, of_decide_eq_true hname, rfl⟩
  · rintro ⟨_, sel, hmem, hname, -⟩
    exact ⟨sel, hmem, decide_eq_true hname⟩

theorem typenameOf_eq_iff (hdef : m.queryDef = m'.queryDef) :
    typenameOf m = typenameOf m' ↔ wantsTypename m = wantsTypename m' := by
  rw [typenameOf, typenameOf, hdef]
  cases wantsTypename m <;> cases wantsTypename m' <;> simp

theorem typenameEntries_inj {typename typename' : Option String}
    (h : typenameEntries typename = typenameEntries typename') : typename = typename' := by
  cases typename <;> cases typename' <;> simp_all [typenameEntries]

/-- A selected field shows no text in a row without it. -/
theorem shownValue_missing {key : String} (hkey : Answered key m.rootFields) :
    ∃ value, shownValue cc render parse schema ctx m .null key = some value ∧ ∀ s, value ≠ .str s := by
  obtain ⟨sel, hsel⟩ := Option.isSome_iff_exists.mp (finalSelection_isSome.mpr hkey)
  rw [shownValue, hsel, Option.map_some]
  refine ⟨_, rfl, ?_⟩
  intro s
  split_ifs with hdenied
  · rintro ⟨⟩
  · have hkeeps := keeps_projectNestedValue (mk [] none parse)
    cases hopened : openedType schema m.queryDef.returnType 0 sel with
    | none =>
      rw [fieldValue_missing hopened, hkeeps.null]
      rintro ⟨⟩
    | some child =>
      rw [fieldValue, eval_opened hopened, hkeeps.obj]
      rintro ⟨⟩

/-- The type name is no such value. -/
theorem shownValue_typename {key : String} (hkey : ¬Answered key m.rootFields) (data : Json) :
    shownValue cc render parse schema ctx m data key = Json.lookup key (typenameEntries (typenameOf m)) := by
  rw [shownValue, finalSelection_none.mpr hkey]
  rfl

theorem answered_of_shownValue {key : String}
    (hsame : shownValue cc render parse schema ctx m .null key = shownValue cc render parse schema ctx m' .null key)
    (hkey : Answered key m.rootFields) : Answered key m'.rootFields := by
  by_contra hkey'
  obtain ⟨value, hvalue, hstr⟩ := @shownValue_missing cc render parse schema m ctx key hkey
  rw [hvalue, shownValue_typename hkey', eq_comm, lookup_typenameEntries] at hsame
  obtain ⟨-, t, -, rfl⟩ := hsame
  exact hstr t rfl

theorem shownValue_eq_iff (hdef : m.queryDef = m'.queryDef) :
    (∀ data key, shownValue cc render parse schema ctx m data key =
        shownValue cc render parse schema ctx m' data key) ↔ SelectionsAgree schema ctx m m' := by
  have hkeeps := keeps_projectNestedValue (mk [] none parse)
  constructor
  · intro hsame
    have hkeys : SameKeys m.rootFields m'.rootFields := fun key =>
      ⟨answered_of_shownValue (hsame .null key), answered_of_shownValue (hsame .null key).symm⟩
    refine ⟨hkeys, ?_, ?_⟩
    · by_cases hkey : Answered "__typename" m.rootFields
      · exact .inr hkey
      · left
        have htypename := hsame .null "__typename"
        rw [shownValue_typename hkey, shownValue_typename fun h => hkey ((hkeys _).mpr h)] at htypename
        rw [← typenameOf_eq_iff hdef]
        cases h : typenameOf m <;> cases h' : typenameOf m' <;> simp_all [typenameEntries, lookup_cons]
    · rw [allAgree_iff]
      intro key sel hcounts hsel
      obtain ⟨-, -, hkey⟩ := finalSelection_spec hsel
      have hanswered : Answered key m'.rootFields :=
        (hkeys key).mp (finalSelection_isSome.mp (Option.isSome_of_eq_some hsel))
      obtain ⟨sel', hsel'⟩ := Option.isSome_iff_exists.mp (finalSelection_isSome.mpr hanswered)
      refine ⟨sel', hsel', ?_⟩
      rw [← agree_iff cc render schema sel sel' _ hkeeps _ _ 0 []
        (hkey.trans (finalSelection_spec hsel').2.2.symm)]
      intro data
      have hdata := hsame data key
      rw [shownValue, shownValue, hsel, hsel', ← hdef, hcounts] at hdata
      exact hdef ▸ Option.some.inj hdata
  · rintro ⟨hkeys, htypename, hagree⟩ data key
    rw [allAgree_iff] at hagree
    cases hsel : finalSelection key m.rootFields with
    | none =>
      have hkey := finalSelection_none.mp hsel
      rw [shownValue_typename hkey, shownValue_typename fun h => hkey ((hkeys _).mpr h)]
      obtain hwants | hanswered := htypename
      · rw [(typenameOf_eq_iff hdef).mpr hwants]
      · have hne : key ≠ "__typename" := fun h => hkey (h ▸ hanswered)
        have hnone : ∀ typename, Json.lookup key (typenameEntries typename) = none := by
          intro typename
          rw [Option.eq_none_iff_forall_ne_some]
          intro value hvalue
          exact hne ((lookup_typenameEntries typename key value).mp hvalue).1
        rw [hnone, hnone]
    | some sel =>
      obtain ⟨-, -, hkey⟩ := finalSelection_spec hsel
      cases hdenied : denied schema m.queryDef.returnType ctx key with
      | true =>
        have hanswered := (hkeys key).mp (finalSelection_isSome.mp (Option.isSome_of_eq_some hsel))
        obtain ⟨sel', hsel'⟩ := Option.isSome_iff_exists.mp (finalSelection_isSome.mpr hanswered)
        rw [shownValue, shownValue, hsel, hsel', ← hdef, hdenied]
        rfl
      | false =>
        obtain ⟨sel', hsel', hfields⟩ := hagree key sel hdenied hsel
        have hvalue := (agree_iff cc render schema sel sel' _ hkeeps _ _ 0 []
          (hkey.trans (finalSelection_spec hsel').2.2.symm)).mpr hfields data
        rw [shownValue, shownValue, hsel, hsel', ← hdef, hdenied]
        exact congrArg some (hdef ▸ hvalue)

/-- Every row is shown alike exactly when the selections agree. -/
theorem shown_eq_iff (hdef : m.queryDef = m'.queryDef)
    (h : applyFieldRbacFiltering schema m.queryDef.returnType (extractProjectionFields m) ctx = .ok access)
    (h' : applyFieldRbacFiltering schema m'.queryDef.returnType (extractProjectionFields m') ctx = .ok access') :
    (∀ data, shown cc render parse schema m access data = shown cc render parse schema m' access' data) ↔
      SelectionsAgree schema ctx m m' := by
  -- a row that is no object is kept by a query without fields only
  have hmixed : ∀ {m m' : QueryMatch} {access access' : FieldAccess},
      applyFieldRbacFiltering schema m.queryDef.returnType (extractProjectionFields m) ctx = .ok access →
      applyFieldRbacFiltering schema m'.queryDef.returnType (extractProjectionFields m') ctx = .ok access' →
      selects m.rootFields = true → selects m'.rootFields = false →
      shown cc render parse schema m access .null ≠ shown cc render parse schema m' access' .null := by
    intro m m' access access' h h' hselects hselects'
    obtain ⟨entries, hentries, -⟩ := @shown_object cc render parse schema m ctx access hselects h .null
    rw [hentries, shown_bare hselects' h']
    exact nofun
  have hkeys : SelectionsAgree schema ctx m m' → selects m.rootFields = selects m'.rootFields := by
    intro hagree
    rw [Bool.eq_iff_iff, selects_iff, selects_iff]
    exact exists_congr hagree.1
  cases hselects : selects m.rootFields with
  | true =>
    cases hselects' : selects m'.rootFields with
    | true =>
      rw [← @shownValue_eq_iff cc render parse schema m m' ctx hdef]
      constructor
      · intro hsame data key
        obtain ⟨entries, hentries, -, hlookup⟩ := shown_object hselects h data
        obtain ⟨entries', hentries', -, hlookup'⟩ := shown_object hselects' h' data
        have heq := hsame data
        rw [hentries, hentries'] at heq
        rw [← hlookup, ← hlookup', Json.obj.inj heq]
      · intro hsame data
        obtain ⟨entries, hentries, horder, hlookup⟩ := shown_object hselects h data
        obtain ⟨entries', hentries', horder', hlookup'⟩ := shown_object hselects' h' data
        rw [hentries, hentries']
        apply congrArg Json.obj
        apply eq_of_lookup horder horder'
        intro key
        rw [hlookup, hlookup', hsame data key]
    | false =>
      refine iff_of_false (fun hsame => hmixed h h' hselects hselects' (hsame .null)) ?_
      intro hagree
      have heq := hkeys hagree
      rw [hselects, hselects'] at heq
      cases heq
  | false =>
    cases hselects' : selects m'.rootFields with
    | true =>
      refine iff_of_false (fun hsame => hmixed h' h hselects' hselects (hsame .null).symm) ?_
      intro hagree
      have heq := hkeys hagree
      rw [hselects, hselects'] at heq
      cases heq
    | false =>
      have hnone : ∀ key, ¬Answered key m.rootFields := by
        intro key hkey
        have htrue := selects_iff.mpr ⟨key, hkey⟩
        rw [hselects] at htrue
        cases htrue
      have hnone' : ∀ key, ¬Answered key m'.rootFields := by
        intro key hkey
        have htrue := selects_iff.mpr ⟨key, hkey⟩
        rw [hselects'] at htrue
        cases htrue
      constructor
      · intro hsame
        refine ⟨fun key => iff_of_false (hnone key) (hnone' key), .inl ?_, ?_⟩
        · have hempty := hsame (.obj [])
          rw [shown_bare hselects h, shown_bare hselects' h', project, project,
            projectJsonObject_eq, projectJsonObject_eq] at hempty
          exact (typenameOf_eq_iff hdef).mp (typenameEntries_inj (Json.obj.inj hempty))
        · rw [allAgree_iff]
          intro key sel _ hsel
          exact absurd (finalSelection_isSome.mp (Option.isSome_of_eq_some hsel)) (hnone key)
      · rintro ⟨-, htypename, -⟩ data
        have hwants := htypename.resolve_right (hnone _)
        rw [shown_bare hselects h, shown_bare hselects' h', (typenameOf_eq_iff hdef).mpr hwants]

end Row

end FraiseQL.ResponseRows
