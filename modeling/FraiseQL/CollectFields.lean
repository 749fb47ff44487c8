import FraiseQL.FragmentResolution

/-! Fragment expansion against the CollectFields algorithm. Expansion splices the selections of a fragment in the place of
its spread, so what the spread carries is lost: its directives, the type condition of the fragment, and that the
algorithm takes a fragment once for each selection set. The fields agree exactly when every spread that the algorithm
passes over has no field to contribute. -/

namespace FraiseQL.Graphql

open Outcome List Option Except

/-! ### Fields -/

/-- A collected field with the fields collected under it. -/
inductive Field where
  | mk (name : String) (aliasName : Option String) (arguments : List GraphQLArgument) (children : List Field)

/-- What the algorithm reads of the schema, and the type conditions of the fragments, which the resolver never reads. -/
structure Typing where
  typeCondition : String → String
  applies : String → String → Bool
  fieldType : String → String → String

/-- The type condition of an inline fragment; it is empty when there is none. -/
def inlineType (name : String) : Option String :=
  (stripStart ['.', '.', '.'] name).bind fun rest => stripStart ['o', 'n', ' '] rest

def Typing.inlineApplies (typing : Typing) (objectType typeCondition : String) : Bool :=
  typeCondition = "" || typing.applies objectType typeCondition

section Collection

variable (fromStr : String → Option Json) (vars : List (String × Json)) (typing : Typing)
  (fragments : List FragmentDefinition)

/-- Every `@skip` is false and every `@include` true. -/
def included (directives : List ParsedDirective) : Bool :=
  directives.all fun directive =>
    if directive.name = "skip" then (evaluateIf fromStr vars directive).toOption == some false
    else if directive.name = "include" then (evaluateIf fromStr vars directive).toOption == some true
    else true

/-- A selection in the algorithm: the fields it adds, and the fragments taken so far. The fields of a field are
collected anew, with no fragments taken. -/
def collectSelection (deeper : String → List String → List ParsedSelection → List Field × List String)
    (objectType : String) (visited : List String) (sel : ParsedSelection) : List Field × List String :=
  if !included fromStr vars sel.directives then ([], visited)
  else match spreadName sel with
    | some name =>
      if visited.contains name then ([], visited)
      else match findFragment fragments name with
        | none => ([], name :: visited)
        | some fragment =>
          if typing.applies objectType (typing.typeCondition name) then
            deeper objectType (name :: visited) fragment.selections
          else ([], name :: visited)
    | none =>
      match inlineType sel.name with
      | some typeCondition =>
        if typing.inlineApplies objectType typeCondition then deeper objectType visited sel.nestedFields
        else ([], visited)
      | none =>
        ([.mk sel.name sel.aliasName sel.arguments
          (deeper (typing.fieldType objectType sel.name) [] sel.nestedFields).1], visited)

/-- The selections one after the other. -/
def collectEach (collect : List String → ParsedSelection → List Field × List String) :
    List String → List ParsedSelection → List Field × List String
  | visited, [] => ([], visited)
  | visited, sel :: sels =>
    let first := collect visited sel
    let rest := collectEach collect first.2 sels
    (first.1 ++ rest.1, rest.2)

def collectFields : Nat → String → List String → List ParsedSelection → List Field × List String
  | 0, _, visited, _ => ([], visited)
  | depth + 1, objectType, visited, sels =>
    collectEach (collectSelection fromStr vars typing fragments (collectFields depth) objectType) visited sels

mutual

/-- The fields of resolved and filtered selections, for an object type. -/
def fieldsOfSelection (objectType : String) : ParsedSelection → List Field
  | .mk name aliasName arguments nestedFields _ =>
    match inlineType name with
    | some typeCondition =>
      if typing.inlineApplies objectType typeCondition then fieldsOf objectType nestedFields else []
    | none => [.mk name aliasName arguments (fieldsOf (typing.fieldType objectType name) nestedFields)]

def fieldsOf (objectType : String) : List ParsedSelection → List Field
  | [] => []
  | sel :: sels => fieldsOfSelection objectType sel ++ fieldsOf objectType sels

end

/-! ### What expansion gives -/

/-- The fields of one selection when fragments are spliced in. -/
def expandSelection (deeper : String → List ParsedSelection → List Field) (objectType : String)
    (sel : ParsedSelection) : List Field :=
  match spreadName sel with
  | some name => ((findFragment fragments name).map fun fragment => deeper objectType fragment.selections).getD []
  | none =>
    if !included fromStr vars sel.directives then []
    else match inlineType sel.name with
      | some typeCondition =>
        if typing.inlineApplies objectType typeCondition then deeper objectType sel.nestedFields else []
      | none =>
        [.mk sel.name sel.aliasName sel.arguments
          (deeper (typing.fieldType objectType sel.name) sel.nestedFields)]

/-- The fields of selections when fragments are spliced in. -/
def expandFields : Nat → String → List ParsedSelection → List Field
  | 0, _, _ => []
  | depth + 1, objectType, sels =>
    sels.flatMap (expandSelection fromStr vars typing fragments (expandFields depth) objectType)

/-- The algorithm takes the fragment of a spread. -/
def taken (objectType : String) (visited : List String) (sel : ParsedSelection) (name : String) : Bool :=
  included fromStr vars sel.directives && !visited.contains name &&
    typing.applies objectType (typing.typeCondition name)

/-- A selection without a field: it is excluded, an inline fragment or a spread with nothing inside. -/
def FieldlessSelection (fieldless : String → List ParsedSelection → Prop) (objectType : String)
    (sel : ParsedSelection) : Prop :=
  match spreadName sel with
  | some name => ∀ fragment, findFragment fragments name = some fragment → fieldless objectType fragment.selections
  | none => included fromStr vars sel.directives = true →
      ∃ typeCondition, inlineType sel.name = some typeCondition ∧
        (typing.inlineApplies objectType typeCondition = true → fieldless objectType sel.nestedFields)

/-- Selections without a field, to a depth, whatever directives their spreads have. -/
def Fieldless : Nat → String → List ParsedSelection → Prop
  | 0, _, _ => True
  | depth + 1, objectType, sels =>
    ∀ sel ∈ sels, FieldlessSelection fromStr vars typing fragments (Fieldless depth) objectType sel

/-- A selection through which no field gets in that the algorithm passes over: a spread that is not taken has no fields,
what is taken is clean inside. -/
def CleanSelection (clean : String → List String → List ParsedSelection → Prop)
    (fieldless : String → List ParsedSelection → Prop) (objectType : String) (visited : List String)
    (sel : ParsedSelection) : Prop :=
  match spreadName sel with
  | some name => ∀ fragment, findFragment fragments name = some fragment →
      if taken fromStr vars typing objectType visited sel name then
        clean objectType (name :: visited) fragment.selections
      else fieldless objectType fragment.selections
  | none => included fromStr vars sel.directives = true →
      match inlineType sel.name with
      | some typeCondition => typing.inlineApplies objectType typeCondition = true →
          clean objectType visited sel.nestedFields
      | none => clean (typing.fieldType objectType sel.name) [] sel.nestedFields

/-- Clean selections, with the fragments that are taken on the way. -/
def CleanEach (clean : List String → ParsedSelection → Prop) (visitedAfter : List String → ParsedSelection → List String) :
    List String → List ParsedSelection → Prop
  | _, [] => True
  | visited, sel :: sels => clean visited sel ∧ CleanEach clean visitedAfter (visitedAfter visited sel) sels

/-- No field gets in by a spread that the algorithm passes over, to a depth. -/
def Clean : Nat → String → List String → List ParsedSelection → Prop
  | 0, _, _, _ => True
  | depth + 1, objectType, visited, sels =>
    CleanEach (CleanSelection fromStr vars typing fragments (Clean depth)
        (Fieldless fromStr vars typing fragments depth) objectType)
      (fun visited sel => (collectSelection fromStr vars typing fragments
        (collectFields fromStr vars typing fragments depth) objectType visited sel).2) visited sels

end Collection

/-! ### Agreement -/

theorem append_eq_append_iff_of_le {α : Type} {as bs as' bs' : List α} (has : as.length ≤ as'.length)
    (hbs : bs.length ≤ bs'.length) : as ++ bs = as' ++ bs' ↔ as = as' ∧ bs = bs' := by
  constructor
  · intro heq
    have hlength := congrArg length heq
    rw [length_append, length_append] at hlength
    exact append_inj heq (by omega)
  · rintro ⟨rfl, rfl⟩
    rfl

section Agreement

variable {fromStr : String → Option Json} {vars : List (String × Json)} {typing : Typing}
  {fragments : List FragmentDefinition}

/-- The two readings of selections one level deeper. -/
structure Compared (collect : String → List String → List ParsedSelection → List Field × List String)
    (expand : String → List ParsedSelection → List Field) (fieldless : String → List ParsedSelection → Prop)
    (clean : String → List String → List ParsedSelection → Prop) : Prop where
  empty : ∀ objectType sels, expand objectType sels = [] ↔ fieldless objectType sels
  length : ∀ objectType visited sels, (collect objectType visited sels).1.length ≤ (expand objectType sels).length
  same : ∀ objectType visited sels, (collect objectType visited sels).1 = expand objectType sels ↔
    clean objectType visited sels

variable {collect : String → List String → List ParsedSelection → List Field × List String}
  {expand : String → List ParsedSelection → List Field} {fieldless : String → List ParsedSelection → Prop}
  {clean : String → List String → List ParsedSelection → Prop}

variable {objectType : String} {visited : List String} {sel : ParsedSelection}

theorem collectSelection_taken {name : String} (hname : spreadName sel = some name) :
    (collectSelection fromStr vars typing fragments collect objectType visited sel).1 =
      if taken fromStr vars typing objectType visited sel name then
        ((findFragment fragments name).map fun fragment =>
          (collect objectType (name :: visited) fragment.selections).1).getD []
      else [] := by
  unfold collectSelection taken
  simp only [hname]
  cases included fromStr vars sel.directives <;> cases visited.contains name <;>
    cases findFragment fragments name <;>
    cases typing.applies objectType (typing.typeCondition name) <;> simp

theorem expandSelection_empty (hempty : ∀ objectType sels, expand objectType sels = [] ↔ fieldless objectType sels)
    (objectType : String) (sel : ParsedSelection) :
    expandSelection fromStr vars typing fragments expand objectType sel = [] ↔
      FieldlessSelection fromStr vars typing fragments fieldless objectType sel := by
  unfold expandSelection FieldlessSelection
  cases hname : spreadName sel with
  | some name =>
    cases hfragment : findFragment fragments name with
    | none => simp [hfragment]
    | some fragment => simp [hfragment, hempty]
  | none =>
    cases hincluded : included fromStr vars sel.directives with
    | false => simp
    | true =>
      cases hinline : inlineType sel.name with
      | none => simp
      | some typeCondition => cases happlies : typing.inlineApplies objectType typeCondition <;> simp [happlies, hempty]

theorem compared_selection (hcompared : Compared collect expand fieldless clean) (objectType : String) (visited : List String)
    (sel : ParsedSelection) :
    (collectSelection fromStr vars typing fragments collect objectType visited sel).1.length ≤
        (expandSelection fromStr vars typing fragments expand objectType sel).length ∧
      ((collectSelection fromStr vars typing fragments collect objectType visited sel).1 =
        expandSelection fromStr vars typing fragments expand objectType sel ↔
      CleanSelection fromStr vars typing fragments clean fieldless objectType visited sel) := by
  cases hname : spreadName sel with
  | some name =>
    rw [collectSelection_taken hname]
    unfold expandSelection CleanSelection
    simp only [hname]
    cases hfragment : findFragment fragments name with
    | none => simp
    | some fragment =>
      simp only [map_some, getD_some, some.injEq, forall_eq']
      split_ifs
      · exact ⟨hcompared.length _ _ _, hcompared.same _ _ _⟩
      · exact ⟨Nat.zero_le _, eq_comm.trans (hcompared.empty _ _)⟩
  | none =>
    unfold collectSelection expandSelection CleanSelection
    simp only [hname]
    cases hincluded : included fromStr vars sel.directives with
    | false => simp
    | true =>
      cases hinline : inlineType sel.name with
      | none =>
        simp [hcompared.same]
      | some typeCondition =>
        cases happlies : typing.inlineApplies objectType typeCondition with
        | false => simp [happlies]
        | true =>
          simp only [Bool.not_true, Bool.false_eq_true, if_false, happlies, if_true, true_implies]
          exact ⟨hcompared.length _ _ _, hcompared.same _ _ _⟩

/-- The selections one after the other, when what each gives is compared. -/
theorem compared_each (hcompared : Compared collect expand fieldless clean) (objectType : String) (visited : List String)
    (sels : List ParsedSelection) :
    (collectEach (collectSelection fromStr vars typing fragments collect objectType) visited sels).1.length ≤
        (sels.flatMap (expandSelection fromStr vars typing fragments expand objectType)).length ∧
      ((collectEach (collectSelection fromStr vars typing fragments collect objectType) visited sels).1 =
        sels.flatMap (expandSelection fromStr vars typing fragments expand objectType) ↔
      CleanEach (CleanSelection fromStr vars typing fragments clean fieldless objectType)
        (fun visited sel => (collectSelection fromStr vars typing fragments collect objectType visited sel).2)
        visited sels) := by
  induction sels generalizing visited with
  | nil => simp [collectEach, CleanEach]
  | cons sel sels ih =>
    obtain ⟨hlengthFirst, hsameFirst⟩ :=
      @compared_selection fromStr vars typing fragments _ _ _ _ hcompared objectType visited sel
    obtain ⟨hlengthRest, hsameRest⟩ :=
      ih (collectSelection fromStr vars typing fragments collect objectType visited sel).2
    rw [collectEach, flatMap_cons, CleanEach]
    constructor
    · simp only [length_append]
      omega
    · rw [append_eq_append_iff_of_le hlengthFirst hlengthRest, hsameFirst, hsameRest]

/-- To any depth, the algorithm collects at most the fields of expansion, and all of them exactly on clean selections. -/
theorem compared_collectFields (depth : Nat) :
    Compared (collectFields fromStr vars typing fragments depth) (expandFields fromStr vars typing fragments depth)
      (Fieldless fromStr vars typing fragments depth) (Clean fromStr vars typing fragments depth) := by
  induction depth with
  | zero =>
    exact ⟨fun _ _ => iff_of_true rfl trivial, fun _ _ _ => Nat.le_refl 0, fun _ _ _ => iff_of_true rfl trivial⟩
  | succ depth ih =>
    constructor
    · intro objectType sels
      rw [expandFields, Fieldless, flatMap_eq_nil_iff]
      exact forall₂_congr fun sel _ => expandSelection_empty ih.empty objectType sel
    · intro objectType visited sels
      exact (compared_each ih objectType visited sels).1
    · intro objectType visited sels
      exact (compared_each ih objectType visited sels).2

/-! ### Expansion and filtering -/

theorem included_cons (directive : ParsedDirective) (directives : List ParsedDirective) :
    included fromStr vars (directive :: directives) =
      ((if directive.name = "skip" then (evaluateIf fromStr vars directive).toOption == some false
      else if directive.name = "include" then (evaluateIf fromStr vars directive).toOption == some true
      else true) && included fromStr vars directives) := rfl

/-- Where the directives can be evaluated, what they decide is whether the selection is included. -/
theorem evaluateDirectives_included {directives : List ParsedDirective} {keep : Bool}
    (h : evaluateDirectives fromStr vars directives = .ok keep) : included fromStr vars directives = keep := by
  induction directives with
  | nil =>
    obtain rfl := ok.inj h
    rfl
  | cons directive directives ih =>
    rw [evaluateDirectives] at h
    rw [included_cons]
    split_ifs at h ⊢ with hskip hinclude
    · obtain ⟨skip, hif, h⟩ := bind_eq_ok.mp h
      rw [hif]
      cases skip with
      | true =>
        obtain rfl := ok.inj h
        rfl
      | false => rw [ih h]; simp [Except.toOption]
    · obtain ⟨stays, hif, h⟩ := bind_eq_ok.mp h
      rw [hif]
      cases stays with
      | true => rw [ih h]; simp [Except.toOption]
      | false =>
        obtain rfl := Except.ok.inj h
        rfl
    · rw [ih h, Bool.true_and]

variable {sels kept : List ParsedSelection}

theorem filterSelections_append {rest : List ParsedSelection}
    (h : filterSelections fromStr vars (sels ++ rest) = .ok kept) :
    ∃ first last, filterSelections fromStr vars sels = .ok first ∧ filterSelections fromStr vars rest = .ok last ∧
      kept = first ++ last := by
  induction sels generalizing kept with
  | nil => exact ⟨[], kept, filterSelections.eq_1 fromStr vars, h, rfl⟩
  | cons sel sels ih =>
    rw [cons_append, filterSelections] at h
    obtain ⟨one, hone, h⟩ := bind_eq_ok.mp h
    obtain ⟨others, hothers, rfl⟩ := map_eq_ok.mp h
    obtain ⟨first, last, hfirst, hlast, rfl⟩ := ih hothers
    refine ⟨one.toList ++ first, last, ?_, hlast, by rw [append_assoc]⟩
    rw [filterSelections, hone, Except.bind, hfirst]
    rfl

theorem fieldsOf_append (objectType : String) (sels rest : List ParsedSelection) :
    fieldsOf typing objectType (sels ++ rest) = fieldsOf typing objectType sels ++ fieldsOf typing objectType rest := by
  induction sels with
  | nil => rw [nil_append, fieldsOf, nil_append]
  | cons sel sels ih => rw [cons_append, fieldsOf, ih, fieldsOf, append_assoc]

theorem expandFields_nil (depth : Nat) (objectType : String) :
    expandFields fromStr vars typing fragments depth objectType [] = [] := by
  cases depth with
  | zero => rfl
  | succ depth => rw [expandFields, flatMap_nil]

variable {deeper : List String → List ParsedSelection → Except String (List ParsedSelection)}

theorem resolveSelection_whole (hname : spreadName sel = none) :
    resolveSelection fragments deeper visited sel =
      if sel.nestedFields.isEmpty then .ok [sel]
      else (deeper visited sel.nestedFields).map fun nested =>
        [.mk sel.name sel.aliasName sel.arguments nested sel.directives] := by
  unfold spreadName at hname
  unfold resolveSelection
  cases hstrip : stripStart ['.', '.', '.'] sel.name with
  | none => rfl
  | some name =>
    rw [hstrip, filter_eq_none_iff] at hname
    have hinline := hname name rfl
    simp only [Bool.not_eq_true, Bool.not_eq_false'] at hinline
    simp only [hinline, if_true]

theorem resolveSelection_spread {name : String} (hname : spreadName sel = some name) {part : List ParsedSelection}
    (h : resolveSelection fragments deeper visited sel = .ok part) :
    ∃ fragment, findFragment fragments name = some fragment ∧
      deeper (name :: visited) fragment.selections = .ok part := by
  unfold spreadName at hname
  obtain ⟨hstrip, hinline⟩ := filter_eq_some_iff.mp hname
  simp only [Bool.not_eq_eq_eq_not, Bool.not_true] at hinline
  unfold resolveSelection at h
  simp only [hstrip, hinline, Bool.false_eq_true, if_false] at h
  split_ifs at h
  cases hfragment : findFragment fragments name with
  | none =>
    rw [hfragment] at h
    cases h
  | some fragment =>
    rw [hfragment] at h
    exact ⟨fragment, rfl, h⟩

/-- One field or inline fragment, when its resolved selections have the fields of expansion. -/
theorem fieldsOf_whole {expand : String → List ParsedSelection → List Field}
    {nested : List ParsedSelection} (hname : spreadName sel = none)
    (hnested : ∀ objectType keptNested, filterSelections fromStr vars nested = .ok keptNested →
      fieldsOf typing objectType keptNested = expand objectType sel.nestedFields)
    (h : filterSelections fromStr vars [.mk sel.name sel.aliasName sel.arguments nested sel.directives] = .ok kept) :
    fieldsOf typing objectType kept = expandSelection fromStr vars typing fragments expand objectType sel := by
  rw [filterSelections] at h
  obtain ⟨one, hone, h⟩ := bind_eq_ok.mp h
  rw [filterSelections] at h
  obtain ⟨rest, hrest, rfl⟩ := map_eq_ok.mp h
  obtain rfl := ok.inj hrest
  rw [append_nil]
  rw [filterSelection] at hone
  obtain ⟨keep, hkeep, hone⟩ := bind_eq_ok.mp hone
  unfold expandSelection
  simp only [hname, evaluateDirectives_included hkeep]
  cases keep with
  | false =>
    obtain rfl := ok.inj hone
    rw [toList_none, fieldsOf]
    rfl
  | true =>
    obtain ⟨keptNested, hkeptNested, rfl⟩ := map_eq_ok.mp hone
    rw [toList_some, fieldsOf, fieldsOf, append_nil, fieldsOfSelection]
    simp only [hnested _ _ hkeptNested]
    rfl

/-- What is left after the resolver and the filter are the fields of expansion. -/
theorem fieldsOf_resolved {levels : Nat} {out : List ParsedSelection}
    (hout : resolveSelections fragments levels visited sels = .ok out)
    (hkept : filterSelections fromStr vars out = .ok kept) :
    fieldsOf typing objectType kept = expandFields fromStr vars typing fragments levels objectType sels := by
  induction levels generalizing visited sels out kept objectType with
  | zero => cases hout
  | succ levels ih =>
    rw [resolveSelections] at hout
    obtain ⟨parts, hparts, rfl⟩ := map_eq_ok.mp hout
    rw [expandFields]
    clear hout
    replace hparts := mapM_forall₂ hparts
    induction hparts generalizing kept with
    | nil =>
      rw [flatten_nil, filterSelections] at hkept
      obtain rfl := ok.inj hkept
      rw [fieldsOf, flatMap_nil]
    | @cons sel part sels parts hpart _ ihEach =>
      rw [flatten_cons] at hkept
      obtain ⟨first, last, hfirst, hlast, rfl⟩ := filterSelections_append hkept
      rw [fieldsOf_append, ihEach hlast, flatMap_cons]
      congr 1
      cases hname : spreadName sel with
      | some name =>
        obtain ⟨fragment, hfragment, hdeeper⟩ := resolveSelection_spread hname hpart
        unfold expandSelection
        simp only [hname, hfragment, map_some, getD_some]
        exact ih hdeeper hfirst
      | none =>
        rw [resolveSelection_whole hname] at hpart
        split_ifs at hpart with hempty
        · obtain rfl := ok.inj hpart
          rw [List.isEmpty_iff] at hempty
          have hself : [sel] = [.mk sel.name sel.aliasName sel.arguments [] sel.directives] := by
            cases sel
            exact hempty ▸ rfl
          refine fieldsOf_whole hname ?_ (hself ▸ hfirst)
          intro objectType keptNested hnested
          rw [filterSelections] at hnested
          obtain rfl := ok.inj hnested
          rw [hempty, expandFields_nil, fieldsOf]
        · obtain ⟨nested, hdeeper, rfl⟩ := map_eq_ok.mp hpart
          exact fieldsOf_whole hname (fun _ _ hnested => ih hdeeper hnested) hfirst

/-! ### The depth of the algorithm -/

theorem collectFields_nil (depth : Nat) (objectType : String) (visited : List String) :
    collectFields fromStr vars typing fragments depth objectType visited [] = ([], visited) := by
  cases depth <;> rfl

/-- A selection collects the same when what lies below it collects the same. -/
theorem collectSelection_congr {collect collect' : String → List String → List ParsedSelection → List Field × List String}

    (hfragment : ∀ name fragment, spreadName sel = some name → findFragment fragments name = some fragment →
      ∀ objectType visited, collect objectType visited fragment.selections =
        collect' objectType visited fragment.selections)
    (hnested : spreadName sel = none → ∀ objectType visited, collect objectType visited sel.nestedFields =
      collect' objectType visited sel.nestedFields) (objectType : String) (visited : List String) :
    collectSelection fromStr vars typing fragments collect objectType visited sel =
      collectSelection fromStr vars typing fragments collect' objectType visited sel := by
  unfold collectSelection
  cases hname : spreadName sel with
  | some name =>
    cases hfound : findFragment fragments name with
    | none => simp only [hfound]
    | some fragment => simp only [hfound, hfragment name fragment hname hfound]
  | none => simp only [hnested hname]

/-- Selections that the resolver accepts are collected to the same fields at every greater depth. -/
theorem collectFields_deeper {levels depth : Nat} {out : List ParsedSelection}
    (hout : resolveSelections fragments levels visited sels = .ok out) (hdepth : levels ≤ depth)
    (objectType : String) (taken : List String) :
    collectFields fromStr vars typing fragments depth objectType taken sels =
      collectFields fromStr vars typing fragments levels objectType taken sels := by
  induction levels generalizing depth visited sels out objectType taken with
  | zero => cases hout
  | succ levels ih =>
    obtain ⟨depth, rfl⟩ : ∃ n, depth = n + 1 := ⟨depth - 1, by omega⟩
    rw [resolveSelections] at hout
    obtain ⟨parts, hparts, rfl⟩ := map_eq_ok.mp hout
    rw [collectFields, collectFields]
    clear hout
    replace hparts := mapM_forall₂ hparts
    induction hparts generalizing taken with
    | nil => rfl
    | @cons sel part sels parts hpart _ ihEach =>
      have hfirst : collectSelection fromStr vars typing fragments
            (collectFields fromStr vars typing fragments depth) objectType taken sel =
          collectSelection fromStr vars typing fragments
            (collectFields fromStr vars typing fragments levels) objectType taken sel := by
        apply collectSelection_congr
        · intro name fragment hname hfound objectType taken
          obtain ⟨fragment', hfound', hdeeper⟩ := resolveSelection_spread hname hpart
          obtain rfl := some.inj (hfound.symm.trans hfound')
          exact ih hdeeper (by omega) objectType taken
        · intro hname objectType taken
          rw [resolveSelection_whole hname] at hpart
          split_ifs at hpart with hempty
          · rw [isEmpty_iff.mp hempty, collectFields_nil, collectFields_nil]
          · obtain ⟨nested, hdeeper, _⟩ := map_eq_ok.mp hpart
            exact ih hdeeper (by omega) objectType taken
      rw [collectEach, collectEach, hfirst, ihEach]

end Agreement

/-! ### The fields that are left -/

/-- When the resolver and the filter succeed, the fields that are left are those that the algorithm collects, exactly
when no field gets in by a spread that the algorithm passes over. -/
theorem expansion_collects_iff {fragments : List FragmentDefinition} {sels out kept : List ParsedSelection}
    (hout : resolveSpreads fragments sels = .ok out) (fromStr : String → Option Json) (vars : List (String × Json))
    (hkept : filterSelections fromStr vars out = .ok kept) (typing : Typing) (objectType : String) {depth : Nat}
    (hdepth : maxFragmentDepth + 1 ≤ depth) :
    fieldsOf typing objectType kept = (collectFields fromStr vars typing fragments depth objectType [] sels).1 ↔
      Clean fromStr vars typing fragments (maxFragmentDepth + 1) objectType [] sels := by
  rw [collectFields_deeper hout hdepth, fieldsOf_resolved hout hkept, eq_comm]
  exact (compared_collectFields _).same objectType [] sels

/-- The JSON texts of booleans. -/
def readBoolean (s : String) : Option Json :=
  if s = "true" then some (.bool true) else if s = "false" then some (.bool false) else none

/-- A schema with one type, and a fragment on it. -/
def statusTyping : Typing :=
  ⟨fun _ => "Query", fun objectType typeCondition => objectType = typeCondition, fun _ _ => "Query"⟩

def restFragments : List FragmentDefinition := [⟨"Rest", [.mk "version" none [] [] []]⟩]

/-- `query { status ...Rest @include(if: …) }`. -/
def statusQuery (condition : String) : List ParsedSelection :=
  [.mk "status" none [] [] [], .mk "...Rest" none [] [] [⟨"include", [⟨"if", .boolean, condition⟩]⟩]]

theorem rest_collected :
    fieldsOf statusTyping "Query" [.mk "status" none [] [] [], .mk "version" none [] [] []] =
      (collectFields readBoolean [] statusTyping restFragments (maxFragmentDepth + 1) "Query" []
        (statusQuery "true")).1 := by
  have hout : resolveSpreads restFragments (statusQuery "true") =
    .ok [.mk "status" none [] [] [], .mk "version" none [] [] []] := rfl
  refine (expansion_collects_iff hout readBoolean [] rfl statusTyping "Query" (Nat.le_refl _)).mpr ?_
  refine ⟨fun _ => trivial, ?_, trivial⟩
  intro fragment hfragment
  obtain rfl := some.inj hfragment
  exact ⟨fun _ => trivial, trivial⟩

theorem rest_left_in : ∃ out kept, resolveSpreads restFragments (statusQuery "false") = .ok out ∧
    filterSelections readBoolean [] out = .ok kept ∧ ∀ depth, maxFragmentDepth + 1 ≤ depth →
      fieldsOf statusTyping "Query" kept ≠
        (collectFields readBoolean [] statusTyping restFragments depth "Query" [] (statusQuery "false")).1 := by
  have hout : resolveSpreads restFragments (statusQuery "false") =
    .ok [.mk "status" none [] [] [], .mk "version" none [] [] []] := rfl
  refine ⟨_, _, hout, rfl, ?_⟩
  intro depth hdepth heq
  rw [collectFields_deeper hout hdepth] at heq
  exact absurd (congrArg length heq) (by decide)

end FraiseQL.Graphql
