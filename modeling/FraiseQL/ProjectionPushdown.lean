import FraiseQL.CacheKey
import FraiseQL.JsonbExpression
import FraiseQL.MapEntries

/-! Projection in SQL against projection in memory. The object the SQL of a typed projection denotes in a row
is compared with the one the projector makes of the row. Both find a value by the response key; the SQL looks
under its snake-case spelling, gives `null` for a missing key, takes text out of `String` and `ID` fields and
builds nested objects whatever is stored there, while the projector copies what it finds. The condition under
which they agree is stated on the row, level by level. -/

namespace FraiseQL.ProjectionPushdown

open CacheKey (Held HeldEntries)
open Jsonb (Expr at? textOf buildEntries fieldPair fieldPairs)
open MapEntries ResultProjector Option List Json
open WhereFilter (CharCase toSnakeCase)

/-- From outside: PostgreSQL's text of a `jsonb` value and `serde_json::from_str`. -/
structure Library where
  render : Json → String
  parse : String → Option Json
  parse_held : ∀ {s : String} {value : Json}, parse s = some value → Held value

/-! ### When a row reads the same both ways -/

/-- Some selection other than `__typename` is answered under the key. -/
def Answered (key : String) (sels : List FieldSelection) : Prop :=
  ∃ sel ∈ sels, sel.name ≠ "__typename" ∧ sel.responseKey = key

instance (key : String) (sels : List FieldSelection) : Decidable (Answered key sels) :=
  inferInstanceAs (Decidable (∃ sel ∈ sels, _))

/-- Some field other than `__typename` is selected. -/
def selects (sels : List FieldSelection) : Bool := sels.any fun sel => sel.name ≠ "__typename"

/-- The definition of a selected field. -/
def fieldOf (schema : CompiledSchema) (parentType name : String) : Option FieldDefinition :=
  (schema.findType parentType).bind fun t => t.findField name

section Condition

variable (cc : CharCase) (lib : Library) (schema : CompiledSchema)

mutual

/-- What is stored under the snake-case key reads as the field's own value. In an object whose fields are
projected, the own value holds the selected keys and no others, and each reads the same one level down. -/
def ReadsSame (parentType : String) (depth : Nat) (stored : Option Json) (own : Json) : FieldSelection → Prop
  | .mk name _ _ nestedFields =>
    match childType (fieldOf schema parentType name) with
    | some child =>
      if selects nestedFields && decide (depth < maxDepth) then
        ∃ entries, own = .obj entries ∧ (∀ e ∈ entries, Answered e.1 nestedFields) ∧
          AllReadSame child (depth + 1) stored (fun key value => Json.lookup key entries = some value)
            nestedFields
      else own = stored.getD .null
    | none =>
      own = if kindOf (fieldOf schema parentType name) = .text then textOf lib.render stored
        else stored.getD .null

/-- The same for each selection, as far as no later one is answered under its key. -/
def AllReadSame (parentType : String) (depth : Nat) (container : Option Json) (own : String → Json → Prop) :
    List FieldSelection → Prop
  | [] => True
  | sel :: sels =>
    (sel.name ≠ "__typename" → ¬Answered sel.responseKey sels → ∃ value, own sel.responseKey value ∧
      ReadsSame parentType depth (container.bind (Json.get? (toSnakeCase cc sel.responseKey))) value sel) ∧
    AllReadSame parentType depth container own sels

end

def isContainer : Json → Bool
  | .obj _ | .arr _ => true
  | _ => false

/-- A stored value is shown as it is, but the text of an object or an array is shown as that. -/
def ShownAs (own shown : Json) : Prop :=
  (∃ s, own = .str s ∧ lib.parse s = some shown ∧ isContainer shown = true) ∨
    (own = shown ∧ ∀ s value, own = .str s → lib.parse s = some value → isContainer value = false)

/-- What the row shows under a key: its own value, or the type name where that is asked for. -/
def Shown (typename : Option String) (row : List (String × Json)) (key : String) (shown : Json) : Prop :=
  match Json.lookup key row with
  | some own => ShownAs lib own shown
  | none => key = "__typename" ∧ ∃ t, typename = some t ∧ shown = .str t

/-- The entry of the type name, where it is asked for. -/
def typenameEntries : Option String → List (String × Json)
  | some typename => [("__typename", .str typename)]
  | none => []

/-- A row with nothing in it that a selection without fields leaves out. -/
def Bare (typename : Option String) : Json → Prop
  | .obj entries => entries = typenameEntries typename
  | .arr items => ∀ entries, .obj entries ∈ items → entries = typenameEntries typename
  | _ => True

/-- The type name the projector adds. -/
def typenameOf (m : QueryMatch) : Option String :=
  if ResultProjector.wantsTypename m then some m.queryDef.returnType else none

/-- The rows on which both projections agree. -/
def Agreeable (m : QueryMatch) (row : Json) : Prop :=
  if selects m.rootFields then
    ∃ entries, row = .obj entries ∧
      (ResultProjector.wantsTypename m = true → Answered "__typename" m.rootFields) ∧
      AllReadSame cc lib schema m.queryDef.returnType 0 (some row) (Shown lib (typenameOf m) entries) m.rootFields
  else Bare (typenameOf m) row

end Condition

/-! ### The value of a projected field -/

section Field

variable {cc : CharCase} {lib : Library} {schema : CompiledSchema} {data : Json} (path : List String)

theorem at?_snoc (key : String) (data : Json) : at? (path ++ [key]) data = (at? path data).bind (get? key) := by
  rw [at?, foldl_append]
  rfl

theorem fieldPair_name (depth : Nat) (name : String) (kind : FieldKind) (subFields : Option (List ProjectionField)) :
    (fieldPair cc path depth (.mk name kind subFields)).1 = name := by
  rcases subFields with _ | _ | ⟨sub, subs⟩
  · simp only [fieldPair]
  · simp only [fieldPair]
  · simp only [fieldPair]
    split_ifs <;> rfl

theorem fieldPair_key (depth : Nat) (parentType : String) (sel : FieldSelection) :
    (fieldPair cc path depth (typedField schema parentType depth sel)).1 = sel.responseKey := by
  obtain ⟨name, aliasName, arguments, nestedFields⟩ := sel
  rw [typedField, fieldPair_name]
  rfl

theorem build_eq_nil_iff (parentType : String) (depth : Nat) (sels : List FieldSelection) :
    buildTypedProjectionFields schema parentType depth sels = [] ↔ selects sels = false := by
  induction sels with
  | nil => simp [buildTypedProjectionFields, selects]
  | cons sel sels ih =>
    rw [buildTypedProjectionFields, selects, any_cons, Bool.or_eq_false_iff, ← selects, ← ih]
    split_ifs with hname
    · simp [hname]
    · simp [hname]

variable {pairs : List (String × Json)}

/-- The entries of an object built from pairs are those of another object. -/
theorem buildEntries_eq_iff {P : String → Prop} {entries : List (String × Json)}
    (hpairs : ∀ key, (finalValue key pairs).isSome ↔ P key) (horder : InOrder entries) :
    buildEntries pairs = entries ↔ (∀ e ∈ entries, P e.1) ∧
      ∀ key, P key → ∃ value, Json.lookup key entries = some value ∧ finalValue key pairs = some value := by
  have hlookup : ∀ key, Json.lookup key (buildEntries pairs) = finalValue key pairs := by
    intro key
    rw [buildEntries, lookup_insertAll, lookup_nil, or_none]
  constructor
  · rintro rfl
    refine ⟨?_, ?_⟩
    · intro e hmem
      rw [← hpairs, ← hlookup]
      exact lookup_isSome.mpr ⟨e, hmem, rfl⟩
    · intro key hkey
      obtain ⟨value, hvalue⟩ := isSome_iff_exists.mp ((hpairs key).mpr hkey)
      exact ⟨value, (hlookup key).trans hvalue, hvalue⟩
  · rintro ⟨hkeys, hvalues⟩
    refine eq_of_lookup (insertAll_inOrder pairs List.Pairwise.nil) horder ?_
    intro key
    show Json.lookup key (buildEntries pairs) = _
    rw [hlookup]
    by_cases hkey : P key
    · obtain ⟨value, hentry, hfinal⟩ := hvalues key hkey
      rw [hentry, hfinal]
    · have hnone : finalValue key pairs = none := by
        rw [← not_isSome_iff_eq_none, hpairs]
        exact hkey
      rw [hnone, lookup_eq_none]
      intro e hmem heq
      exact hkey (heq ▸ hkeys e hmem)

/-- The pairs of a list of selections, with their values. -/
def valuePairs (cc : CharCase) (render : Json → String) (schema : CompiledSchema) (data : Json)
    (path : List String) (depth : Nat) (parentType : String) (sels : List FieldSelection) :
    List (String × Json) :=
  Expr.evalPairs render data (fieldPairs cc path depth (buildTypedProjectionFields schema parentType depth sels))

theorem valuePairs_cons (render : Json → String) (path : List String) (depth : Nat) (parentType : String)
    (sel : FieldSelection) (sels : List FieldSelection) :
    valuePairs cc render schema data path depth parentType (sel :: sels) =
      if sel.name = "__typename" then valuePairs cc render schema data path depth parentType sels
      else (sel.responseKey, (fieldPair cc path depth (typedField schema parentType depth sel)).2.eval render data)
        :: valuePairs cc render schema data path depth parentType sels := by
  rw [valuePairs, buildTypedProjectionFields]
  split_ifs with hname
  · rfl
  · rw [fieldPairs]
    show ((fieldPair cc path depth (typedField schema parentType depth sel)).1, _) :: _ = _
    rw [fieldPair_key]
    rfl

variable {key : String} {sel : FieldSelection}

theorem answered_cons {sels : List FieldSelection} :
    Answered key (sel :: sels) ↔ (sel.name ≠ "__typename" ∧ sel.responseKey = key) ∨ Answered key sels := by
  simp only [Answered, exists_mem_cons_iff]

theorem finalValue_isSome (cc : CharCase) (render : Json → String) (schema : CompiledSchema) (data : Json)
    (path : List String) (depth : Nat) (parentType : String) (sels : List FieldSelection) (key : String) :
    (finalValue key (valuePairs cc render schema data path depth parentType sels)).isSome ↔ Answered key sels := by
  induction sels with
  | nil => simp [valuePairs, buildTypedProjectionFields, fieldPairs, Expr.evalPairs, finalValue, Answered]
  | cons sel sels ih =>
    rw [valuePairs_cons, answered_cons, ← ih]
    split_ifs with hname
    · simp [hname]
    · rw [finalValue]
      by_cases hkey : sel.responseKey = key
      · simp [hname, hkey]
      · simp [hkey]

theorem finalValue_cons_of_isSome {k : String} {v : Json}
    (h : (finalValue key pairs).isSome) : finalValue key ((k, v) :: pairs) = finalValue key pairs := by
  obtain ⟨value, hvalue⟩ := isSome_iff_exists.mp h
  rw [finalValue, hvalue]
  rfl

theorem finalValue_cons_self {k : String} {v : Json}
    (h : finalValue k pairs = none) : finalValue k ((k, v) :: pairs) = some v := by
  rw [finalValue, h, if_pos rfl]
  rfl

variable {render : Json → String}

theorem eval_direct (depth : Nat) (name : String) (kind : FieldKind)
    {subFields : Option (List ProjectionField)} (h : ∀ subs, subFields = some subs → subs = [] ∨ ¬depth < maxDepth) :
    (fieldPair cc path depth (.mk name kind subFields)).2.eval render data =
      if kind = .text then textOf render ((at? path data).bind (get? (toSnakeCase cc name)))
      else ((at? path data).bind (get? (toSnakeCase cc name))).getD .null := by
  have hdirect : (fieldPair cc path depth (.mk name kind subFields)).2 =
      if kind = .text then Expr.memberText path (toSnakeCase cc name)
      else .member (path ++ [toSnakeCase cc name]) := by
    rcases subFields with _ | _ | ⟨sub, subs⟩
    · simp only [fieldPair]
    · simp only [fieldPair]
    · obtain hnil | hdepth := h _ rfl
      · cases hnil
      · simp only [fieldPair, hdepth, if_false]
  rw [hdirect]
  split_ifs with hkind
  · rw [Expr.eval, at?_snoc]
  · rw [Expr.eval, at?_snoc]

theorem eval_nested (depth : Nat) (name : String) (kind : FieldKind)
    {subs : List ProjectionField} (hsubs : subs ≠ []) (hdepth : depth < maxDepth) :
    (fieldPair cc path depth (.mk name kind (some subs))).2.eval render data =
      .obj (buildEntries (Expr.evalPairs render data
        (fieldPairs cc (path ++ [toSnakeCase cc name]) (depth + 1) subs))) := by
  obtain ⟨sub, subs, rfl⟩ := exists_cons_of_ne_nil hsubs
  simp only [fieldPair, hdepth, if_true, Expr.eval]

theorem kindOf_of_childType {field : Option FieldDefinition} {child : String} (h : childType field = some child) :
    kindOf field ≠ .text := by
  cases field with
  | none => cases h
  | some field =>
    have hscalar : field.fieldType.isScalar = false := by
      cases hs : field.fieldType.isScalar with
      | false => rfl
      | true => simp [childType, hs] at h
    simp [kindOf, hscalar]

/-- The type of a selected field whose own fields are projected in the SQL. -/
def openedType (schema : CompiledSchema) (parentType : String) (depth : Nat) : FieldSelection → Option String
  | .mk name _ _ nestedFields =>
    (childType (fieldOf schema parentType name)).bind fun child =>
      if selects nestedFields && decide (depth < maxDepth) then some child else none

/-- A field whose own fields are projected is an object of them. -/
theorem eval_opened {path : List String} {depth : Nat} {parentType child : String}
    (h : openedType schema parentType depth sel = some child) :
    (fieldPair cc path depth (typedField schema parentType depth sel)).2.eval render data =
      .obj (buildEntries (valuePairs cc render schema data (path ++ [toSnakeCase cc sel.responseKey]) (depth + 1)
        child sel.nestedFields)) := by
  obtain ⟨name, aliasName, arguments, nestedFields⟩ := sel
  rw [openedType, bind_eq_some_iff] at h
  obtain ⟨opened, hchild, hopen⟩ := h
  split_ifs at hopen with hopen'
  obtain rfl := some.inj hopen
  rw [Bool.and_eq_true, decide_eq_true_iff] at hopen'
  obtain ⟨hselects, hdepth⟩ := hopen'
  have hnested : (!nestedFields.isEmpty && decide (depth < maxDepth)) = true := by
    cases nestedFields with
    | nil => cases hselects
    | cons _ _ => exact decide_eq_true hdepth
  have hsubs : buildTypedProjectionFields schema opened (depth + 1) nestedFields ≠ [] := by
    rw [Ne, build_eq_nil_iff, hselects]
    exact Bool.noConfusion
  rw [fieldOf] at hchild
  rw [typedField, hchild]
  dsimp only
  rw [if_pos hnested, eval_nested _ _ _ _ hsubs hdepth]
  rfl

/-- Any other field is what is stored under its key, as text or as it is. -/
theorem eval_closed {path : List String} {depth : Nat} {parentType : String}
    (h : openedType schema parentType depth sel = none) :
    (fieldPair cc path depth (typedField schema parentType depth sel)).2.eval render data =
      if kindOf (fieldOf schema parentType sel.name) = .text then
        textOf render ((at? path data).bind (get? (toSnakeCase cc sel.responseKey)))
      else ((at? path data).bind (get? (toSnakeCase cc sel.responseKey))).getD .null := by
  obtain ⟨name, aliasName, arguments, nestedFields⟩ := sel
  rw [typedField, ← fieldOf]
  cases hchild : childType (fieldOf schema parentType name) with
  | none =>
    apply eval_direct
    intro subs hsubs
    cases hsubs
  | some child =>
    rw [openedType, hchild] at h
    apply eval_direct
    intro subs hsubs
    dsimp only at hsubs
    split_ifs at hsubs with hnested
    rw [← some.inj hsubs, build_eq_nil_iff]
    by_cases hdepth : depth < maxDepth
    · exact .inl (by simpa [hdepth] using h)
    · exact .inr hdepth

theorem held_lookup {entries : List (String × Json)} (h : HeldEntries entries) {value : Json}
    (hvalue : Json.lookup key entries = some value) : Held value := by
  induction entries with
  | nil => cases hvalue
  | cons e entries ih =>
    rw [lookup_cons] at hvalue
    split_ifs at hvalue with hkey
    · exact some.inj hvalue ▸ h.1
    · exact ih h.2 hvalue

mutual

/-- The value of a projected field, against a value the row holds. -/
theorem eval_eq_iff : ∀ (sel : FieldSelection) (path : List String) (depth : Nat) (parentType : String)
    (own : Json), Held own →
      ((fieldPair cc path depth (typedField schema parentType depth sel)).2.eval lib.render data = own ↔
        ReadsSame cc lib schema parentType depth
          ((at? path data).bind (get? (toSnakeCase cc sel.responseKey))) own sel)
  | .mk name aliasName arguments nestedFields, path, depth, parentType, own, hown => by
    cases hopened : openedType schema parentType depth (.mk name aliasName arguments nestedFields) with
    | none =>
      rw [eval_closed hopened, ReadsSame]
      cases hchild : childType (fieldOf schema parentType name) with
      | none => exact eq_comm
      | some child =>
        rw [openedType, hchild, bind_some, ite_eq_right_iff] at hopened
        have hkind : kindOf (fieldOf schema parentType
            (FieldSelection.mk name aliasName arguments nestedFields).name) ≠ .text :=
          kindOf_of_childType hchild
        dsimp only
        rw [if_neg fun hopen => some_ne_none _ (hopened hopen), if_neg hkind]
        exact eq_comm
    | some child =>
      rw [eval_opened hopened, ReadsSame]
      rw [openedType, bind_eq_some_iff] at hopened
      obtain ⟨opened, hchild, hopen⟩ := hopened
      split_ifs at hopen with hopen'
      obtain rfl := some.inj hopen
      rw [hchild]
      dsimp only
      rw [if_pos hopen']
      have hkeys := finalValue_isSome cc lib.render schema data
        (path ++ [toSnakeCase cc (aliasName.getD name)]) (depth + 1) opened nestedFields
      have hall := fun entries (hentries : HeldEntries entries) => finalValue_iff nestedFields
        (path ++ [toSnakeCase cc (aliasName.getD name)]) (depth + 1) opened
        (fun key value => Json.lookup key entries = some value) (fun _ _ => held_lookup hentries)
      rw [at?_snoc] at hall
      constructor
      · rintro rfl
        have heq := (buildEntries_eq_iff hkeys hown.1).mp rfl
        exact ⟨_, rfl, heq.1, (hall _ hown.2).mp heq.2⟩
      · rintro ⟨entries, rfl, honly, hreads⟩
        exact congrArg obj ((buildEntries_eq_iff hkeys hown.1).mpr ⟨honly, (hall _ hown.2).mpr hreads⟩)

/-- The values of the selected keys, against what the row holds under them. -/
theorem finalValue_iff : ∀ (sels : List FieldSelection) (path : List String) (depth : Nat) (parentType : String)
    (own : String → Json → Prop), (∀ key value, own key value → Held value) →
      ((∀ key, Answered key sels → ∃ value, own key value ∧
          finalValue key (valuePairs cc lib.render schema data path depth parentType sels) = some value) ↔
        AllReadSame cc lib schema parentType depth (at? path data) own sels)
  | [], path, depth, parentType, own, _ => by
    simp [AllReadSame, Answered]
  | sel :: sels, path, depth, parentType, own, hown => by
    have hsel := fun value hvalue => eval_eq_iff sel path depth parentType value hvalue
    have hsels := finalValue_iff sels path depth parentType own hown
    rw [AllReadSame, ← hsels]
    by_cases hname : sel.name = "__typename"
    · rw [valuePairs_cons, if_pos hname]
      simp [answered_cons, hname]
    · rw [valuePairs_cons, if_neg hname]
      have hsome := finalValue_isSome cc lib.render schema data path depth parentType sels
      constructor
      · intro hall
        refine ⟨?_, ?_⟩
        · intro _ hlast
          obtain ⟨value, hvalue, hfinal⟩ := hall _ (answered_cons.mpr (.inl ⟨hname, rfl⟩))
          rw [finalValue_cons_self (not_isSome_iff_eq_none.mp fun h => hlast ((hsome _).mp h))] at hfinal
          exact ⟨value, hvalue, (hsel value (hown _ _ hvalue)).mp (some.inj hfinal)⟩
        · intro key hkey
          obtain ⟨value, hvalue, hfinal⟩ := hall key (answered_cons.mpr (.inr hkey))
          rw [finalValue_cons_of_isSome ((hsome key).mpr hkey)] at hfinal
          exact ⟨value, hvalue, hfinal⟩
      · rintro ⟨hfirst, hrest⟩ key hkey
        by_cases hlater : Answered key sels
        · obtain ⟨value, hvalue, hfinal⟩ := hrest key hlater
          exact ⟨value, hvalue, (finalValue_cons_of_isSome ((hsome key).mpr hlater)).trans hfinal⟩
        · obtain ⟨_, rfl⟩ := (answered_cons.mp hkey).resolve_right hlater
          obtain ⟨value, hvalue, hreads⟩ := hfirst hname hlater
          refine ⟨value, hvalue, ?_⟩
          rw [finalValue_cons_self (not_isSome_iff_eq_none.mp fun h => hlater ((hsome _).mp h)),
            (hsel value (hown _ _ hvalue)).mpr hreads]

end

end Field

/-! ### The projector -/

variable (p : ResultProjector)

theorem projectNestedValue_container {s : String} {value : Json}
    (hparse : p.parse s = some value) (hcontainer : isContainer value = true) :
    p.projectNestedValue (.str s) = value := by
  unfold projectNestedValue
  dsimp only
  rw [hparse]
  cases value with
  | obj entries => rfl
  | arr items => rfl
  | _ => cases hcontainer

theorem projectNestedValue_plain {own : Json}
    (h : ∀ s value, own = .str s → p.parse s = some value → isContainer value = false) :
    p.projectNestedValue own = own := by
  unfold projectNestedValue
  cases own with
  | str s =>
    dsimp only
    cases hparse : p.parse s with
    | none => rfl
    | some value =>
      have hplain := h s value rfl hparse
      cases value with
      | obj entries => cases hplain
      | arr items => cases hplain
      | _ => rfl
  | _ => rfl

theorem projectNestedValue_eq_iff (lib : Library) (p : ResultProjector) (hparse : p.parse = lib.parse)
    (own shown : Json) : p.projectNestedValue own = shown ↔ ShownAs lib own shown := by
  constructor
  · rintro rfl
    by_cases htext : ∃ s value, own = .str s ∧ lib.parse s = some value ∧ isContainer value = true
    · obtain ⟨s, value, rfl, hvalue, hcontainer⟩ := htext
      rw [projectNestedValue_container p (hparse ▸ hvalue) hcontainer]
      exact .inl ⟨s, rfl, hvalue, hcontainer⟩
    · have hplain : ∀ s value, own = .str s → lib.parse s = some value → isContainer value = false := by
        intro s value hown hvalue
        rw [← Bool.not_eq_true]
        intro hcontainer
        exact htext ⟨s, value, hown, hvalue, hcontainer⟩
      rw [projectNestedValue_plain p (hparse ▸ hplain)]
      exact .inr ⟨rfl, hplain⟩
  · rintro (⟨s, rfl, hvalue, hcontainer⟩ | ⟨rfl, hplain⟩)
    · exact projectNestedValue_container p (hparse ▸ hvalue) hcontainer
    · exact projectNestedValue_plain p (hparse ▸ hplain)

/-- What the fields of a row become, one after the other. -/
def projectFields (p : ResultProjector) (row : List (String × Json)) (fields : List String)
    (start : List (String × Json)) : List (String × Json) :=
  fields.foldl (fun result field =>
    match Json.lookup field row with
    | some value => insertEntry field (p.projectNestedValue value) result
    | none => result) start

variable (row : List (String × Json))

theorem lookup_projectFields (fields : List String) (start : List (String × Json)) (key : String) :
    Json.lookup key (projectFields p row fields start) =
      if key ∈ fields then ((Json.lookup key row).map p.projectNestedValue).or (Json.lookup key start)
      else Json.lookup key start := by
  induction fields generalizing start with
  | nil => rfl
  | cons field fields ih =>
    rw [projectFields, foldl_cons, ← projectFields, ih]
    by_cases hkey : field = key
    · subst hkey
      cases hrow : Json.lookup field row with
      | none => simp
      | some value => simp [lookup_insertEntry]
    · have hne : key ≠ field := Ne.symm hkey
      cases hrow : Json.lookup field row with
      | none => simp [hne]
      | some value => simp [lookup_insertEntry, hkey, hne]

theorem projectFields_inOrder (fields : List String)
    {start : List (String × Json)} (h : InOrder start) : InOrder (projectFields p row fields start) := by
  induction fields generalizing start with
  | nil => exact h
  | cons field fields ih =>
    rw [projectFields, foldl_cons, ← projectFields]
    cases Json.lookup field row with
    | none => exact ih h
    | some value => exact ih (insertEntry_inOrder _ _ h)

theorem projectJsonObject_eq :
    p.projectJsonObject row = .obj (projectFields p row p.fields (typenameEntries p.typename)) := by
  rw [projectJsonObject, projectFields]
  cases p.typename <;> rfl

theorem typenameEntries_inOrder (typename : Option String) : InOrder (typenameEntries typename) := by
  cases typename with
  | none => exact List.Pairwise.nil
  | some _ => exact pairwise_singleton _ _

theorem lookup_typenameEntries (typename : Option String) (key : String) (value : Json) :
    Json.lookup key (typenameEntries typename) = some value ↔
      key = "__typename" ∧ ∃ t, typename = some t ∧ value = .str t := by
  cases typename with
  | none => simp [typenameEntries]
  | some t =>
    rw [typenameEntries, lookup_cons, lookup_nil]
    split_ifs with hkey
    · simp [hkey, eq_comm]
    · simp [Ne.symm hkey]

theorem mem_extractProjectionFields (m : QueryMatch) (key : String) :
    key ∈ extractProjectionFields m ↔ Answered key m.rootFields := by
  simp [extractProjectionFields, Answered, and_assoc]

theorem extractProjectionFields_eq_nil (m : QueryMatch) (h : selects m.rootFields = false) :
    extractProjectionFields m = [] := by
  rw [extractProjectionFields, map_eq_nil_iff, filter_eq_nil_iff]
  simpa [selects] using h

def projector (lib : Library) (m : QueryMatch) : ResultProjector :=
  .ofMatch lib.parse (extractProjectionFields m) m

/-- The entries the projector makes of a row show the row's values under the selected keys. -/
theorem lookup_projected (lib : Library) (m : QueryMatch) (row : List (String × Json)) {key : String}
    (hkey : Answered key m.rootFields) (value : Json) :
    Json.lookup key (projectFields (projector lib m) row (extractProjectionFields m)
        (typenameEntries (typenameOf m))) = some value ↔ Shown lib (typenameOf m) row key value := by
  rw [lookup_projectFields, if_pos ((mem_extractProjectionFields m key).mpr hkey), Shown]
  cases hrow : Json.lookup key row with
  | none => exact lookup_typenameEntries _ _ _
  | some own =>
    dsimp only
    rw [← projectNestedValue_eq_iff lib (projector lib m) rfl]
    exact some_inj

theorem held_shown {lib : Library} {typename : Option String} {row : List (String × Json)}
    (hrow : HeldEntries row) {key : String} {value : Json} (h : Shown lib typename row key value) :
    Held value := by
  rw [Shown] at h
  cases hown : Json.lookup key row with
  | none =>
    rw [hown] at h
    obtain ⟨_, t, _, rfl⟩ := h
    trivial
  | some own =>
    rw [hown] at h
    rcases h with ⟨s, rfl, hparse, _⟩ | ⟨rfl, _⟩
    · exact lib.parse_held hparse
    · exact held_lookup hrow hown

/-! ### Both ways of projecting a row -/

/-- A selection without fields: the SQL gives the row, the projector what is left of it. -/
theorem bare_iff (lib : Library) {m : QueryMatch} (hselects : selects m.rootFields = false) (row : Json) :
    row = (projector lib m).project row ↔ Bare (typenameOf m) row := by
  have hobject : ∀ entries, (projector lib m).projectJsonObject entries = .obj (typenameEntries (typenameOf m)) := by
    intro entries
    rw [projectJsonObject_eq]
    show obj (projectFields _ _ (extractProjectionFields m) _) = _
    rw [extractProjectionFields_eq_nil m hselects]
    rfl
  cases row with
  | obj entries =>
    rw [project, hobject, Bare]
    exact obj.injEq _ _ ▸ Iff.rfl
  | arr items =>
    rw [project, Bare, arr.injEq, eq_comm]
    constructor
    · intro hitems entries hmem
      have hitem := map_inj_left.mp (hitems.trans (map_id items).symm) _ hmem
      dsimp only at hitem
      rw [hobject] at hitem
      exact (obj.inj hitem).symm
    · intro hbare
      refine (map_inj_left.mpr ?_).trans (map_id items)
      intro item hmem
      cases item with
      | obj entries =>
        dsimp only
        rw [hobject, hbare entries hmem]
        rfl
      | _ => rfl
  | _ => exact ⟨fun _ => trivial, fun _ => rfl⟩

/-- Only the type name can stand under a key that no selected field is answered under. -/
theorem typename_iff (lib : Library) (m : QueryMatch) (row : List (String × Json)) :
    (∀ e ∈ projectFields (projector lib m) row (extractProjectionFields m) (typenameEntries (typenameOf m)),
      Answered e.1 m.rootFields) ↔
      (wantsTypename m = true → Answered "__typename" m.rootFields) := by
  have hkeys : ∀ {key : String}, ¬Answered key m.rootFields →
      Json.lookup key (projectFields (projector lib m) row (extractProjectionFields m)
        (typenameEntries (typenameOf m))) = Json.lookup key (typenameEntries (typenameOf m)) := by
    intro key hkey
    rw [lookup_projectFields, if_neg fun h => hkey ((mem_extractProjectionFields m key).mp h)]
  constructor
  · intro hall hwants
    by_contra hkey
    have htypename : typenameOf m = some m.queryDef.returnType := if_pos hwants
    have hlookup := (hkeys hkey).trans ((lookup_typenameEntries _ _ _).mpr ⟨rfl, _, htypename, rfl⟩)
    obtain ⟨e, hmem, heq⟩ := lookup_isSome.mp (isSome_of_eq_some hlookup)
    exact hkey (heq ▸ hall e hmem)
  · intro hwants e hmem
    by_contra hkey
    obtain ⟨value, hvalue⟩ := isSome_iff_exists.mp (lookup_isSome.mpr ⟨e, hmem, rfl⟩)
    rw [hkeys hkey, lookup_typenameEntries] at hvalue
    obtain ⟨hname, t, htypename, _⟩ := hvalue
    rw [hname] at hkey
    refine hkey (hwants ?_)
    rw [typenameOf] at htypename
    split_ifs at htypename with h
    exact h

/-- A selection with fields in an object. -/
theorem object_iff (cc : CharCase) (lib : Library) (schema : CompiledSchema) {m : QueryMatch}
    {entries : List (String × Json)} (hrow : Held (.obj entries)) :
    obj (buildEntries (valuePairs cc lib.render schema (.obj entries) [] 0 m.queryDef.returnType
        m.rootFields)) = (projector lib m).project (.obj entries) ↔
      (wantsTypename m = true → Answered "__typename" m.rootFields) ∧
        AllReadSame cc lib schema m.queryDef.returnType 0 (at? [] (.obj entries))
          (Shown lib (typenameOf m) entries) m.rootFields := by
  rw [project, projectJsonObject_eq, obj.injEq,
    buildEntries_eq_iff (finalValue_isSome cc lib.render schema (.obj entries) [] 0 m.queryDef.returnType
      m.rootFields) (projectFields_inOrder _ _ _ (typenameEntries_inOrder _)),
    ← finalValue_iff m.rootFields [] 0 m.queryDef.returnType (Shown lib (typenameOf m) entries)
      (fun _ _ => held_shown hrow.2)]
  refine and_congr (typename_iff lib m entries) ?_
  · refine forall_congr' fun key => forall_congr' fun hkey => exists_congr fun value => and_congr_left' ?_
    exact lookup_projected lib m entries hkey value

/-- Posts with an author. -/
def postSchema : CompiledSchema where
  types := [⟨"Post", [⟨"id", .id, none, .reject⟩, ⟨"author", .object "User", none, .reject⟩]⟩,
    ⟨"User", [⟨"id", .id, none, .reject⟩]⟩]
  queries := []
  security := none
  sessionVariables := ⟨[], false⟩

/-- `posts { id author { id } }`. -/
def postsMatch : QueryMatch where
  queryDef := ⟨"posts", "Post", true, [], some "v_post", ⟨false, false, false, false⟩, false, none, .int64, [], none, []⟩
  selections := [.mk "posts" none [] [.mk "id" none [] [], .mk "author" none [] [.mk "id" none [] []]]]
  arguments := []
  sorted := QueryMatch.sorted_nil

/-- The texts in these rows are not the text of an object or an array. -/
def plainTexts : Library where
  render := Json.text
  parse := fun _ => none
  parse_held := fun h => nomatch h

def postRow (author : Json) : Json := .obj [("author", author), ("id", .str "p1")]

end FraiseQL.ProjectionPushdown
