import FraiseQL.GraphqlQuery
import Mathlib.Algebra.Order.BigOperators.Group.List

/-! The limits on a query before it runs: nesting depth, complexity with pagination limits as factors, and aliases.
Depth and complexity follow fragment spreads up to 32 times and then answer one more than the limit; aliases in a
fragment are counted once, where it is defined. Sums and products are of 64-bit words. With the spreads inlined, depth
keeps to the limit, aliases do when no more of them stand in the inlined query than in the text, and complexity does
when no sum that wraps lands on a limit below it. -/

namespace FraiseQL.Graphql

open Outcome List Option

/-! ### The validator -/

/-- One more than the largest `usize`. -/
def usizeSize : Nat := 2 ^ 64

/-- The fragment definitions of a document. -/
abbrev Fragments := List (Name × List Selection)

def collectFragments (doc : Document) : Fragments :=
  doc.definitions.filterMap fun
    | .fragment name selectionSet => some (name, selectionSet)
    | .operation _ => none

/-- The first definition of a fragment. -/
def Fragments.lookup (fragments : Fragments) (name : Name) : Option (List Selection) :=
  (fragments.find? fun fragment => fragment.1 = name).map (·.2)

structure RequestValidator where
  maxDepth : Nat
  maxComplexity : Nat
  maxAliasesPerQuery : Nat
  validateDepth : Bool
  validateComplexity : Bool
  fits : maxDepth < usizeSize ∧ maxComplexity < usizeSize ∧ maxAliasesPerQuery < usizeSize

/-- `ComplexityValidationError`, as far as a parsed document can give one. -/
inductive ComplexityValidationError where
  | queryTooDeep (maxDepth actualDepth : Nat)
  | queryTooComplex (maxComplexity actualComplexity : Nat)
  | tooManyAliases (maxAliases actualAliases : Nat)
  deriving DecidableEq

/-- The text of a `ComplexityValidationError`. -/
def ComplexityValidationError.text : ComplexityValidationError → String
  | .queryTooDeep maxDepth actualDepth =>
    "Query exceeds maximum depth of " ++ toString maxDepth ++ ": depth = " ++ toString actualDepth
  | .queryTooComplex maxComplexity actualComplexity =>
    "Query exceeds maximum complexity of " ++ toString maxComplexity ++ ": score = " ++ toString actualComplexity
  | .tooManyAliases maxAliases actualAliases =>
    "Query exceeds maximum alias count of " ++ toString maxAliases ++ ": count = " ++ toString actualAliases

section Depth

variable (spread : Name → Nat)

mutual

/-- One selection of `selection_set_depth`; a spread is as deep as `spread` says. -/
def selectionDepth : Selection → Nat
  | .field _ _ _ _ selectionSet => if selectionSet.isEmpty then 0 else setDepth selectionSet
  | .inlineFragment _ _ selectionSet => setDepth selectionSet
  | .fragmentSpread fragmentName _ => spread fragmentName

/-- A selection set of `selection_set_depth`. -/
def setDepth : List Selection → Nat
  | [] => 0
  | sel :: sels => (1 + max (selectionDepth sel) (childDepth sels)) % usizeSize

/-- The deepest child. -/
def childDepth : List Selection → Nat
  | [] => 0
  | sel :: sels => max (selectionDepth sel) (childDepth sels)

end

end Depth

/-- A recursion over selection sets that follows spreads a number of times and then answers `guard`. -/
def followSpreads (score : (Name → Nat) → List Selection → Nat) (guard missing : Nat) (fragments : Fragments) :
    Nat → List Selection → Nat
  | 0, _ => guard
  | hops + 1, sels => score (fun name => match fragments.lookup name with
      | some selectionSet => followSpreads score guard missing fragments hops selectionSet
      | none => missing) sels

def selectionSetDepth (maxDepth : Nat) (fragments : Fragments) : Nat → List Selection → Nat :=
  followSpreads setDepth ((maxDepth + 1) % usizeSize) maxDepth fragments

/-- The spreads that are followed, with the set that starts. -/
def maxSpreads : Nat := 33

def Definition.selectionSet : Definition → List Selection
  | .operation selectionSet => selectionSet
  | .fragment _ selectionSet => selectionSet

def calculateDepthAst (maxDepth : Nat) (doc : Document) : Nat :=
  (doc.definitions.map fun definition =>
    selectionSetDepth maxDepth (collectFragments doc) maxSpreads definition.selectionSet).foldr max 0

/-- The names of pagination arguments. -/
def isLimitName (name : Name) : Bool :=
  name.text = "first" || name.text = "limit" || name.text = "take" || name.text = "last"

/-- An `i64` as a `usize`, clamped. -/
def clampedLimit (n : Int64) : Nat := max 1 (min 100 (n.toInt % usizeSize).toNat)

def extractLimitMultiplier : List (Name × Value) → Nat
  | [] => 1
  | (name, .int n) :: arguments => if isLimitName name then clampedLimit n else extractLimitMultiplier arguments
  | _ :: arguments => extractLimitMultiplier arguments

section Complexity

variable (spread : Name → Nat)

mutual

/-- One selection of `selection_set_complexity`. -/
def selectionComplexity : Selection → Nat
  | .field _ _ arguments _ selectionSet =>
    if selectionSet.isEmpty then 1
    else (1 + setComplexity selectionSet * extractLimitMultiplier arguments % usizeSize) % usizeSize
  | .inlineFragment _ _ selectionSet => setComplexity selectionSet
  | .fragmentSpread fragmentName _ => spread fragmentName

/-- A selection set of `selection_set_complexity`. -/
def setComplexity : List Selection → Nat
  | [] => 0
  | sel :: sels => (selectionComplexity sel + setComplexity sels) % usizeSize

end

end Complexity

def selectionSetComplexity (maxComplexity : Nat) (fragments : Fragments) : Nat → List Selection → Nat :=
  followSpreads setComplexity ((maxComplexity + 1) % usizeSize) 10 fragments

/-- `calculate_complexity_ast`; fragments count where they are spread. -/
def calculateComplexityAst (maxComplexity : Nat) (doc : Document) : Nat :=
  (doc.definitions.map fun
    | .operation selectionSet =>
      selectionSetComplexity maxComplexity (collectFragments doc) maxSpreads selectionSet
    | .fragment _ _ => 0).foldr (fun score total => (score + total) % usizeSize) 0

mutual

/-- One selection of `count_aliases_in_selection_set`. -/
def selectionAliases : Selection → Nat
  | .field aliasName _ _ _ selectionSet =>
    (if aliasName.isSome then 1 else 0) + countAliasesInSelectionSet selectionSet
  | .inlineFragment _ _ selectionSet => countAliasesInSelectionSet selectionSet
  | .fragmentSpread _ _ => 0

def countAliasesInSelectionSet : List Selection → Nat
  | [] => 0
  | sel :: sels => selectionAliases sel + countAliasesInSelectionSet sels

end

def countAliasesAst (doc : Document) : Nat :=
  (doc.definitions.map fun definition => countAliasesInSelectionSet definition.selectionSet).sum

/-- `validate_query` on a parsed document. -/
def RequestValidator.validateDocument (v : RequestValidator) (doc : Document) :
    Except ComplexityValidationError Unit :=
  if !v.validateDepth && !v.validateComplexity && v.maxAliasesPerQuery = 0 then .ok ()
  else if v.validateDepth && v.maxDepth < calculateDepthAst v.maxDepth doc then
    .error (.queryTooDeep v.maxDepth (calculateDepthAst v.maxDepth doc))
  else if v.validateComplexity && v.maxComplexity < calculateComplexityAst v.maxComplexity doc then
    .error (.queryTooComplex v.maxComplexity (calculateComplexityAst v.maxComplexity doc))
  else if v.maxAliasesPerQuery < countAliasesAst doc then
    .error (.tooManyAliases v.maxAliasesPerQuery (countAliasesAst doc))
  else .ok ()

mutual

def selectionsInside : Selection → Nat
  | .field _ _ _ _ selectionSet => 1 + selectionCount selectionSet
  | .inlineFragment _ _ selectionSet => 1 + selectionCount selectionSet
  | .fragmentSpread _ _ => 1

/-- The selections written in a selection set. -/
def selectionCount : List Selection → Nat
  | [] => 0
  | sel :: sels => selectionsInside sel + selectionCount sels

end

/-- The selections written in a document. -/
def Document.selectionCount (doc : Document) : Nat :=
  (doc.definitions.map fun definition => Graphql.selectionCount definition.selectionSet).sum

/-- A document in memory; a selection takes more than 128 bytes. -/
structure HeldDocument extends Document where
  held : toDocument.selectionCount < 2 ^ 57

/-! ### The inlined query -/

section Inlining

variable (expand : Name → Option (List Selection))

mutual

/-- A selection with the spreads in it replaced. -/
def inlineSelection : Selection → Option (List Selection)
  | .field aliasName name arguments directives selectionSet =>
    (inlineSet selectionSet).map fun inlined => [.field aliasName name arguments directives inlined]
  | .inlineFragment typeCondition directives selectionSet =>
    (inlineSet selectionSet).map fun inlined => [.inlineFragment typeCondition directives inlined]
  | .fragmentSpread fragmentName _ => expand fragmentName

def inlineSet : List Selection → Option (List Selection)
  | [] => some []
  | sel :: sels => (inlineSelection sel).bind fun first => (inlineSet sels).map fun rest => first ++ rest

end

end Inlining

/-- A fragment with its spreads inlined by the other fragments; none when it is not defined or uses itself. -/
def expandFragment : Nat → Fragments → Name → Option (List Selection)
  | 0, _, _ => none
  | count + 1, fragments, name =>
    (fragments.lookup name).bind fun selectionSet =>
      inlineSet (expandFragment count (fragments.filter fun fragment => fragment.1 ≠ name)) selectionSet

def Document.operations (doc : Document) : List (List Selection) :=
  doc.definitions.filterMap fun
    | .operation selectionSet => some selectionSet
    | .fragment _ _ => none

/-- The operations with every spread inlined. -/
def inlinedOperations (doc : Document) : Option (List (List Selection)) :=
  doc.operations.mapM (inlineSet (expandFragment (collectFragments doc).length (collectFragments doc)))

mutual

/-- How deep the selections inside a selection are nested. -/
def levelsInside : Selection → Nat
  | .field _ _ _ _ selectionSet => nestingDepth selectionSet
  | .inlineFragment _ _ selectionSet => nestingDepth selectionSet
  | .fragmentSpread _ _ => 0

/-- How deep selections are nested. -/
def nestingDepth : List Selection → Nat
  | [] => 0
  | sel :: sels => max (levelsInside sel + 1) (nestingDepth sels)

end

/-- The literal pagination limit, clamped. -/
def literalLimit : List (Name × Value) → Nat
  | [] => 1
  | (name, .int n) :: arguments =>
    if isLimitName name then (max 1 (min 100 n.toInt)).toNat else literalLimit arguments
  | _ :: arguments => literalLimit arguments

mutual

/-- The complexity of an inlined selection, unbounded: one for a field, and its children times the limit. -/
def inlinedSelectionComplexity : Selection → Nat
  | .field _ _ arguments _ selectionSet => 1 + inlinedComplexity selectionSet * literalLimit arguments
  | .inlineFragment _ _ selectionSet => inlinedComplexity selectionSet
  | .fragmentSpread _ _ => 0

def inlinedComplexity : List Selection → Nat
  | [] => 0
  | sel :: sels => inlinedSelectionComplexity sel + inlinedComplexity sels

end

/-! ### Scores without a bound -/

section Weights

variable (spread : Name → Nat)

mutual

/-- The depth of a selection as the validator counts it, unbounded. -/
def selectionLevels : Selection → Nat
  | .field _ _ _ _ selectionSet => setLevels selectionSet
  | .inlineFragment _ _ selectionSet => setLevels selectionSet
  | .fragmentSpread fragmentName _ => spread fragmentName

def setLevels : List Selection → Nat
  | [] => 0
  | sel :: sels => 1 + max (selectionLevels sel) (childLevels sels)

def childLevels : List Selection → Nat
  | [] => 0
  | sel :: sels => max (selectionLevels sel) (childLevels sels)

end

mutual

/-- The complexity of a selection as the validator weighs it, unbounded. -/
def selectionWeight : Selection → Nat
  | .field _ _ arguments _ selectionSet => 1 + setWeight selectionSet * extractLimitMultiplier arguments
  | .inlineFragment _ _ selectionSet => setWeight selectionSet
  | .fragmentSpread fragmentName _ => spread fragmentName

def setWeight : List Selection → Nat
  | [] => 0
  | sel :: sels => selectionWeight sel + setWeight sels

end

end Weights

/-- The depth of a document as the validator counts it for a limit, unbounded. -/
def documentLevels (limit : Nat) (doc : Document) : Nat :=
  (doc.definitions.map fun definition => followSpreads setLevels (limit + 1) limit (collectFragments doc) maxSpreads
    definition.selectionSet).foldr max 0

/-- The complexity of a document as the validator weighs it for a limit, unbounded. -/
def documentWeight (limit : Nat) (doc : Document) : Nat :=
  (doc.operations.map (followSpreads setWeight (limit + 1) 10 (collectFragments doc) maxSpreads)).sum

/-! ### What the limits should hold -/

/-- Every spread can be inlined, and what is inlined keeps to the limits. -/
def WithinLimits (v : RequestValidator) (doc : Document) : Prop :=
  ∃ inlined, inlinedOperations doc = some inlined ∧ (∀ sels ∈ inlined, nestingDepth sels ≤ v.maxDepth) ∧
    (inlined.map inlinedComplexity).sum ≤ v.maxComplexity ∧
    (inlined.map countAliasesInSelectionSet).sum ≤ v.maxAliasesPerQuery

/-- The documents on which the limits are sound: every spread can be inlined, no more aliased fields stand in the
inlined query than in the text, and where the weight wraps it lands above each limit below the complexity. -/
structure Limitable (doc : Document) (inlined : List (List Selection)) : Prop where
  aliases : (inlined.map countAliasesInSelectionSet).sum ≤ countAliasesAst doc
  wraps : ∀ limit < usizeSize, limit < (inlined.map inlinedComplexity).sum → usizeSize ≤ documentWeight limit doc →
    limit < documentWeight limit doc % usizeSize

/-! ### Words and numbers -/

section Follow

variable {score score' : (Name → Nat) → List Selection → Nat} {R : Nat → Nat → Prop}

/-- Two scores that agree when their spreads do agree when spreads are followed. -/
theorem followSpreads_related (hscore : ∀ {spread spread' : Name → Nat}, (∀ name, R (spread name) (spread' name)) →
      ∀ sels, R (score spread sels) (score' spread' sels))
    {stop stop' missing missing' : Nat} (hstop : R stop stop') (hmissing : R missing missing') (fragments : Fragments)
    (hops : Nat) (sels : List Selection) :
    R (followSpreads score stop missing fragments hops sels) (followSpreads score' stop' missing' fragments hops sels) := by
  induction hops generalizing sels with
  | zero => exact hstop
  | succ hops ih =>
    rw [followSpreads, followSpreads]
    apply hscore
    intro name
    cases fragments.lookup name with
    | none => exact hmissing
    | some selectionSet => exact ih selectionSet

end Follow

/-- Scores that are as unbounded ones where these fit a word. -/
def Fits (spread spread' : Name → Nat) : Prop := ∀ name, spread' name < usizeSize → spread name = spread' name

section Fits

variable {spread spread' : Name → Nat}

mutual

theorem selectionDepth_eq (h : Fits spread spread') :
    ∀ sel : Selection, selectionLevels spread' sel < usizeSize → selectionDepth spread sel = selectionLevels spread' sel
  | .field _ _ _ _ selectionSet, hlt => by
    rw [selectionLevels] at hlt ⊢
    rw [selectionDepth]
    split_ifs with hempty
    · rw [isEmpty_iff.mp hempty, setLevels]
    · exact setDepth_eq h selectionSet hlt
  | .inlineFragment _ _ selectionSet, hlt => setDepth_eq h selectionSet hlt
  | .fragmentSpread fragmentName _, hlt => h fragmentName hlt

theorem setDepth_eq (h : Fits spread spread') :
    ∀ sels : List Selection, setLevels spread' sels < usizeSize → setDepth spread sels = setLevels spread' sels
  | [], _ => rfl
  | sel :: sels, hlt => by
    rw [setLevels] at hlt ⊢
    rw [setDepth, selectionDepth_eq h sel (by omega), childDepth_eq h sels (by omega)]
    exact Nat.mod_eq_of_lt hlt

theorem childDepth_eq (h : Fits spread spread') :
    ∀ sels : List Selection, childLevels spread' sels < usizeSize → childDepth spread sels = childLevels spread' sels
  | [], _ => rfl
  | sel :: sels, hlt => by
    rw [childLevels] at hlt ⊢
    rw [childDepth, selectionDepth_eq h sel (by omega), childDepth_eq h sels (by omega)]

end

end Fits

theorem calculateDepthAst_eq {limit : Nat} {doc : Document} (h : documentLevels limit doc < usizeSize) :
    calculateDepthAst limit doc = documentLevels limit doc := by
  unfold calculateDepthAst documentLevels at *
  generalize collectFragments doc = fragments at h ⊢
  generalize doc.definitions = definitions at h ⊢
  induction definitions with
  | nil => rfl
  | cons definition definitions ih =>
    rw [map_cons, foldr_cons] at h ⊢
    rw [map_cons, foldr_cons, ih (by omega)]
    congr 1
    have hdepth : followSpreads setLevels (limit + 1) limit fragments maxSpreads definition.selectionSet < usizeSize →
        selectionSetDepth limit fragments maxSpreads definition.selectionSet =
          followSpreads setLevels (limit + 1) limit fragments maxSpreads definition.selectionSet :=
      followSpreads_related (R := fun a b => b < usizeSize → a = b) (fun h sels hlt => setDepth_eq h sels hlt)
        (fun hlt => Nat.mod_eq_of_lt hlt) (fun _ => rfl) fragments maxSpreads definition.selectionSet
    exact hdepth (by omega)

mutual

theorem selectionComplexity_eq {spread spread' : Name → Nat} (h : ∀ name, spread name = spread' name % usizeSize) :
    ∀ sel : Selection, selectionComplexity spread sel = selectionWeight spread' sel % usizeSize
  | .field _ _ arguments _ selectionSet => by
    rw [selectionComplexity, selectionWeight]
    split_ifs with hempty
    · rw [isEmpty_iff.mp hempty, setWeight, Nat.zero_mul]
      rfl
    · rw [setComplexity_eq h selectionSet, Nat.mod_mul_mod, Nat.add_mod_mod]
  | .inlineFragment _ _ selectionSet => setComplexity_eq h selectionSet
  | .fragmentSpread fragmentName _ => h fragmentName

theorem setComplexity_eq {spread spread' : Name → Nat} (h : ∀ name, spread name = spread' name % usizeSize) :
    ∀ sels : List Selection, setComplexity spread sels = setWeight spread' sels % usizeSize
  | [] => rfl
  | sel :: sels => by
    rw [setComplexity, setWeight, selectionComplexity_eq h sel, setComplexity_eq h sels, ← Nat.add_mod]

end

/-- The complexity that is computed is the weight, wrapped. -/
theorem calculateComplexityAst_eq (limit : Nat) (doc : Document) :
    calculateComplexityAst limit doc = documentWeight limit doc % usizeSize := by
  have hmissing : 10 = 10 % usizeSize := (Nat.mod_eq_of_lt (by decide)).symm
  unfold calculateComplexityAst documentWeight Document.operations
  generalize collectFragments doc = fragments
  induction doc.definitions with
  | nil => rfl
  | cons definition definitions ih =>
    rw [map_cons, foldr_cons, ih]
    cases definition with
    | fragment name selectionSet =>
      rw [filterMap_cons]
      dsimp only
      rw [Nat.zero_add, Nat.mod_mod]
    | operation selectionSet =>
      have hscore : selectionSetComplexity limit fragments maxSpreads selectionSet =
          followSpreads setWeight (limit + 1) 10 fragments maxSpreads selectionSet % usizeSize :=
        followSpreads_related (R := fun a b => a = b % usizeSize) (fun h sels => setComplexity_eq h sels) rfl
          hmissing fragments maxSpreads selectionSet
      rw [filterMap_cons]
      dsimp only
      rw [map_cons, sum_cons, hscore, ← Nat.add_mod]

/-! ### Inlining -/

/-- What the smaller table of fragments finds, the larger one finds too. -/
def Finds (fragments all : Fragments) : Prop :=
  ∀ name selectionSet, fragments.lookup name = some selectionSet → all.lookup name = some selectionSet

theorem lookup_cons (fragment : Name × List Selection) (fragments : Fragments) (name : Name) :
    Fragments.lookup (fragment :: fragments) name =
      if fragment.1 = name then some fragment.2 else fragments.lookup name := by
  unfold Fragments.lookup
  by_cases h : fragment.1 = name <;> simp [h]

variable {fragments : Fragments}

/-- Without the fragments of a name, the others are found as before. -/
theorem Finds.without {all : Fragments} (h : Finds fragments all) (name : Name) :
    Finds (fragments.filter fun fragment => fragment.1 ≠ name) all := by
  intro other selectionSet hlookup
  apply h
  clear h
  induction fragments with
  | nil => exact hlookup
  | cons fragment fragments ih =>
    rw [lookup_cons]
    by_cases hname : fragment.1 = name
    · rw [filter_cons_of_neg (by simpa using hname)] at hlookup
      have hother : fragment.1 ≠ other := by
        rintro rfl
        obtain ⟨found, hfound, -⟩ := map_eq_some_iff.mp hlookup
        have hmem := (mem_filter.mp (mem_of_find?_eq_some hfound)).2
        have hkey := find?_some hfound
        simp only [decide_eq_true_eq] at hmem hkey
        exact hmem (hkey.trans hname)
      rw [if_neg hother]
      exact ih hlookup
    · rw [filter_cons_of_pos (by simpa using hname), lookup_cons] at hlookup
      split_ifs at hlookup ⊢ with hother
      · exact hlookup
      · exact ih hlookup

/-- Each spread measures at most its score, or its score is above the limit. -/
def SpreadsSound (measure : List Selection → Nat) (limit : Nat) (expand : Name → Option (List Selection))
    (spread : Name → Nat) : Prop :=
  ∀ name out, expand name = some out → limit < spread name ∨ measure out ≤ spread name

section Sound

variable {measure : List Selection → Nat} {score : (Name → Nat) → List Selection → Nat} {limit missing : Nat}
  {all : Fragments}

/-- What is inlined measures at most the score, or the score is above the limit, when this holds of each spread. -/
theorem inlined_sound (hscore : ∀ {expand : Name → Option (List Selection)} {spread : Name → Nat},
      SpreadsSound measure limit expand spread → ∀ sels out, inlineSet expand sels = some out →
        limit < score spread sels ∨ measure out ≤ score spread sels)
    {count : Nat} {fragments : Fragments} (hfinds : Finds fragments all) {hops : Nat} {sels out : List Selection}
    (h : inlineSet (expandFragment count fragments) sels = some out) :
    limit < followSpreads score (limit + 1) missing all hops sels ∨
      measure out ≤ followSpreads score (limit + 1) missing all hops sels := by
  induction hops generalizing count fragments sels out with
  | zero => exact .inl (Nat.lt_succ_self limit)
  | succ hops ih =>
    rw [followSpreads]
    refine hscore ?_ sels out h
    intro name out hexpand
    cases count with
    | zero => cases hexpand
    | succ count =>
      obtain ⟨selectionSet, hlookup, hinline⟩ := bind_eq_some_iff.mp hexpand
      simp only [hfinds name selectionSet hlookup]
      exact ih (hfinds.without name) hinline

end Sound

theorem nestingDepth_append (sels sels' : List Selection) :
    nestingDepth (sels ++ sels') = max (nestingDepth sels) (nestingDepth sels') := by
  induction sels with
  | nil => rw [nil_append, nestingDepth, Nat.zero_max]
  | cons sel sels ih => rw [cons_append, nestingDepth, ih, nestingDepth, Nat.max_assoc]

theorem inlinedComplexity_append (sels sels' : List Selection) :
    inlinedComplexity (sels ++ sels') = inlinedComplexity sels + inlinedComplexity sels' := by
  induction sels with
  | nil => rw [nil_append, inlinedComplexity, Nat.zero_add]
  | cons sel sels ih => rw [cons_append, inlinedComplexity, ih, inlinedComplexity, Nat.add_assoc]

section Depth

variable {limit : Nat} {expand : Name → Option (List Selection)} {spread : Name → Nat}

/-- The deepest child is one less deep than its set. -/
theorem childLevels_succ (spread : Name → Nat) : ∀ sels : List Selection, childLevels spread sels + 1 = max (setLevels spread sels) 1
  | [] => rfl
  | sel :: sels => by
    rw [childLevels, setLevels]
    omega

theorem nestingDepth_singleton (sel : Selection) : nestingDepth [sel] = levelsInside sel + 1 := by
  rw [nestingDepth, nestingDepth, Nat.max_zero]

mutual

theorem selectionLevels_sound (hspread : SpreadsSound nestingDepth limit expand spread) :
    ∀ (sel : Selection) (out : List Selection), inlineSelection expand sel = some out →
      limit < selectionLevels spread sel ∨ nestingDepth out ≤ selectionLevels spread sel + 1
  | .field _ _ _ _ selectionSet, out, h | .inlineFragment _ _ selectionSet, out, h => by
    obtain ⟨inlined, hinlined, rfl⟩ := map_eq_some_iff.mp h
    rw [nestingDepth_singleton, selectionLevels]
    exact (setLevels_sound hspread selectionSet inlined hinlined).imp_right Nat.succ_le_succ
  | .fragmentSpread fragmentName _, out, h => by
    rw [selectionLevels]
    exact (hspread fragmentName out h).imp_right Nat.le_succ_of_le

theorem setLevels_sound (hspread : SpreadsSound nestingDepth limit expand spread) :
    ∀ (sels out : List Selection), inlineSet expand sels = some out →
    limit < setLevels spread sels ∨ nestingDepth out ≤ setLevels spread sels
  | [], out, h => by
    obtain rfl := Option.some.inj h
    exact .inr (Nat.le_refl _)
  | sel :: sels, out, h => by
    obtain ⟨first, hfirst, h⟩ := bind_eq_some_iff.mp h
    obtain ⟨rest, hrest, rfl⟩ := map_eq_some_iff.mp h
    have hsel := selectionLevels_sound hspread sel first hfirst
    have hsels := setLevels_sound hspread sels rest hrest
    have hchild := childLevels_succ spread sels
    rw [setLevels, nestingDepth_append]
    omega

end

end Depth

section Complexity

variable {limit : Nat} {expand : Name → Option (List Selection)} {spread : Name → Nat}

theorem literalLimit_le (arguments : List (Name × Value)) :
    literalLimit arguments ≤ extractLimitMultiplier arguments ∧ 1 ≤ extractLimitMultiplier arguments := by
  induction arguments with
  | nil => exact ⟨Nat.le_refl 1, Nat.le_refl 1⟩
  | cons argument arguments ih =>
    obtain ⟨name, value⟩ := argument
    cases value with
    | int n =>
      rw [literalLimit, extractLimitMultiplier]
      split_ifs
      · have hsize : (usizeSize : Int) = 18446744073709551616 := rfl
        have hlarge := n.toInt_lt
        rw [clampedLimit, hsize]
        omega
      · exact ih
    | _ => exact ih

mutual

theorem selectionWeight_sound (hspread : SpreadsSound inlinedComplexity limit expand spread) :
    ∀ (sel : Selection) (out : List Selection), inlineSelection expand sel = some out →
    limit < selectionWeight spread sel ∨ inlinedComplexity out ≤ selectionWeight spread sel
  | .field _ _ arguments _ selectionSet, out, h => by
    obtain ⟨inlined, hinlined, rfl⟩ := map_eq_some_iff.mp h
    obtain ⟨hle, hpos⟩ := literalLimit_le arguments
    rw [selectionWeight, inlinedComplexity, inlinedComplexity, inlinedSelectionComplexity, Nat.add_zero]
    rcases setWeight_sound hspread selectionSet inlined hinlined with hlimit | hset
    · left
      have hfactor := Nat.le_mul_of_pos_right (setWeight spread selectionSet) hpos
      omega
    · right
      exact Nat.add_le_add_left (Nat.mul_le_mul hset hle) 1
  | .inlineFragment _ _ selectionSet, out, h => by
    obtain ⟨inlined, hinlined, rfl⟩ := map_eq_some_iff.mp h
    rw [selectionWeight, inlinedComplexity, inlinedComplexity, inlinedSelectionComplexity, Nat.add_zero]
    exact setWeight_sound hspread selectionSet inlined hinlined
  | .fragmentSpread fragmentName _, out, h => hspread fragmentName out h

theorem setWeight_sound (hspread : SpreadsSound inlinedComplexity limit expand spread) :
    ∀ (sels out : List Selection), inlineSet expand sels = some out →
    limit < setWeight spread sels ∨ inlinedComplexity out ≤ setWeight spread sels
  | [], out, h => by
    obtain rfl := Option.some.inj h
    exact .inr (Nat.le_refl _)
  | sel :: sels, out, h => by
    obtain ⟨first, hfirst, h⟩ := bind_eq_some_iff.mp h
    obtain ⟨rest, hrest, rfl⟩ := map_eq_some_iff.mp h
    have hsel := selectionWeight_sound hspread sel first hfirst
    have hsels := setWeight_sound hspread sels rest hrest
    rw [setWeight, inlinedComplexity_append]
    omega

end

end Complexity

/-! ### Documents in memory -/

mutual

theorem levelsInside_le : ∀ sel : Selection, levelsInside sel + 1 ≤ selectionsInside sel
  | .field _ _ _ _ selectionSet | .inlineFragment _ _ selectionSet => by
    have hle := nestingDepth_le selectionSet
    rw [levelsInside, selectionsInside]
    omega
  | .fragmentSpread _ _ => Nat.le_refl 1

theorem nestingDepth_le : ∀ sels : List Selection, nestingDepth sels ≤ selectionCount sels
  | [] => Nat.le_refl 0
  | sel :: sels => by
    have hsel := levelsInside_le sel
    have hsels := nestingDepth_le sels
    rw [nestingDepth, selectionCount]
    omega

end

mutual

theorem selectionAliases_le : ∀ sel : Selection, selectionAliases sel ≤ selectionsInside sel
  | .field _ _ _ _ selectionSet => by
    have hle := countAliases_le selectionSet
    rw [selectionAliases, selectionsInside]
    split_ifs <;> omega
  | .inlineFragment _ _ selectionSet => by
    have hle := countAliases_le selectionSet
    rw [selectionAliases, selectionsInside]
    omega
  | .fragmentSpread _ _ => Nat.zero_le _

theorem countAliases_le : ∀ sels : List Selection, countAliasesInSelectionSet sels ≤ selectionCount sels
  | [] => Nat.le_refl 0
  | sel :: sels => by
    have hsel := selectionAliases_le sel
    have hsels := countAliases_le sels
    rw [countAliasesInSelectionSet, selectionCount]
    omega

end

theorem countAliasesAst_le (doc : Document) : countAliasesAst doc ≤ doc.selectionCount := by
  unfold countAliasesAst Document.selectionCount
  induction doc.definitions with
  | nil => exact Nat.le_refl 0
  | cons definition definitions ih =>
    simp only [map_cons, sum_cons]
    exact Nat.add_le_add (countAliases_le _) ih

mutual

/-- The validator counts at most the levels that are written and those of a spread. -/
theorem selectionLevels_le {spread : Name → Nat} {bound : Nat} (h : ∀ name, spread name ≤ bound) :
    ∀ sel : Selection, selectionLevels spread sel ≤ levelsInside sel + bound
  | .field _ _ _ _ selectionSet => setLevels_le h selectionSet
  | .inlineFragment _ _ selectionSet => setLevels_le h selectionSet
  | .fragmentSpread fragmentName _ => (h fragmentName).trans (Nat.le_add_left _ _)

theorem setLevels_le {spread : Name → Nat} {bound : Nat} (h : ∀ name, spread name ≤ bound) :
    ∀ sels : List Selection, setLevels spread sels ≤ nestingDepth sels + bound
  | [] => Nat.zero_le _
  | sel :: sels => by
    have hsel := selectionLevels_le h sel
    have hsels := setLevels_le h sels
    have hchild := childLevels_succ spread sels
    rw [setLevels, nestingDepth]
    omega

end

/-- Every spread that is followed adds at most the levels of a fragment. -/
theorem followSpreads_le {limit levels : Nat}
    (hlevels : ∀ name selectionSet, fragments.lookup name = some selectionSet → nestingDepth selectionSet ≤ levels)
    (hops : Nat) (sels : List Selection) :
    followSpreads setLevels (limit + 1) limit fragments hops sels ≤ nestingDepth sels + hops * levels + (limit + 1) := by
  induction hops generalizing sels with
  | zero =>
    rw [followSpreads]
    omega
  | succ hops ih =>
    have hspread : ∀ name, (match fragments.lookup name with
        | some selectionSet => followSpreads setLevels (limit + 1) limit fragments hops selectionSet
        | none => limit) ≤ hops * levels + levels + (limit + 1) := by
      intro name
      cases hlookup : fragments.lookup name with
      | none =>
        dsimp only
        omega
      | some selectionSet =>
        have hset := hlevels name selectionSet hlookup
        have hih := ih selectionSet
        dsimp only
        omega
    rw [followSpreads, Nat.succ_mul]
    exact (setLevels_le hspread sels).trans (by omega)

/-- The levels of the fragments together. -/
def Fragments.levels (fragments : Fragments) : Nat := (fragments.map fun fragment => nestingDepth fragment.2).sum

theorem levels_without (name : Name) (fragments : Fragments) :
    Fragments.levels (fragments.filter fun fragment => fragment.1 ≠ name) ≤ fragments.levels := by
  induction fragments with
  | nil => exact Nat.le_refl 0
  | cons fragment fragments ih =>
    by_cases hname : fragment.1 = name
    · rw [filter_cons_of_neg (by simpa using hname)]
      exact ih.trans (Nat.le_add_left _ _)
    · rw [filter_cons_of_pos (by simpa using hname)]
      exact Nat.add_le_add_left ih _

variable {name : Name}

/-- A fragment that is found and the fragments of other names have the levels of all. -/
theorem levels_lookup {selectionSet : List Selection} (h : fragments.lookup name = some selectionSet) :
    nestingDepth selectionSet + Fragments.levels (fragments.filter fun fragment => fragment.1 ≠ name) ≤
      fragments.levels := by
  induction fragments with
  | nil => cases h
  | cons fragment fragments ih =>
    rw [lookup_cons] at h
    by_cases hname : fragment.1 = name
    · rw [if_pos hname] at h
      obtain rfl := Option.some.inj h
      rw [filter_cons_of_neg (by simpa using hname)]
      exact Nat.add_le_add_left (levels_without name fragments) _
    · rw [if_neg hname] at h
      rw [filter_cons_of_pos (by simpa using hname)]
      have hih := ih h
      simp only [Fragments.levels, map_cons, sum_cons] at hih ⊢
      omega

section Inlined

variable {expand : Name → Option (List Selection)} {levels : Nat}

mutual

/-- What is inlined has the levels that are written and those of a spread. -/
theorem inlineSelection_levels (h : ∀ name out, expand name = some out → nestingDepth out ≤ levels) :
    ∀ (sel : Selection) (out : List Selection), inlineSelection expand sel = some out →
      nestingDepth out ≤ levelsInside sel + 1 + levels
  | .field _ _ _ _ selectionSet, out, hinline | .inlineFragment _ _ selectionSet, out, hinline => by
    obtain ⟨inlined, hinlined, rfl⟩ := map_eq_some_iff.mp hinline
    have hset := inlineSet_levels h selectionSet inlined hinlined
    rw [nestingDepth_singleton, levelsInside, levelsInside]
    omega
  | .fragmentSpread fragmentName _, out, hinline => (h fragmentName out hinline).trans (Nat.le_add_left _ _)

theorem inlineSet_levels (h : ∀ name out, expand name = some out → nestingDepth out ≤ levels) :
    ∀ (sels out : List Selection), inlineSet expand sels = some out → nestingDepth out ≤ nestingDepth sels + levels
  | [], out, hinline => by
    obtain rfl := Option.some.inj hinline
    exact Nat.zero_le _
  | sel :: sels, out, hinline => by
    obtain ⟨first, hfirst, hinline⟩ := bind_eq_some_iff.mp hinline
    obtain ⟨rest, hrest, rfl⟩ := map_eq_some_iff.mp hinline
    have hsel := inlineSelection_levels h sel first hfirst
    have hsels := inlineSet_levels h sels rest hrest
    rw [nestingDepth_append, nestingDepth]
    omega

end

end Inlined

/-- A fragment is inlined once on each way down, so its levels are among those that are written. -/
theorem expandFragment_levels {count : Nat} {out : List Selection}
    (h : expandFragment count fragments name = some out) : nestingDepth out ≤ fragments.levels := by
  induction count generalizing fragments name out with
  | zero => cases h
  | succ count ih =>
    obtain ⟨selectionSet, hlookup, hinline⟩ := bind_eq_some_iff.mp h
    have hset := inlineSet_levels (fun _ _ hexpand => ih hexpand) selectionSet out hinline
    exact hset.trans (levels_lookup hlookup)

/-! ### Limits -/

theorem levels_lookup_le {selectionSet : List Selection}
    (h : fragments.lookup name = some selectionSet) : nestingDepth selectionSet ≤ fragments.levels :=
  (Nat.le_add_right _ _).trans (levels_lookup h)

theorem collectFragments_levels (doc : Document) : (collectFragments doc).levels ≤ doc.selectionCount := by
  unfold collectFragments Document.selectionCount
  induction doc.definitions with
  | nil => exact Nat.le_refl 0
  | cons definition definitions ih =>
    cases definition with
    | operation selectionSet => exact ih.trans (Nat.le_add_left _ _)
    | fragment name selectionSet => exact Nat.add_le_add (nestingDepth_le selectionSet) ih

theorem operation_levels {doc : Document} {sels : List Selection} (h : sels ∈ doc.operations) :
    nestingDepth sels ≤ doc.selectionCount := by
  obtain ⟨definition, hmem, hdefinition⟩ := mem_filterMap.mp h
  refine (nestingDepth_le sels).trans ?_
  cases definition with
  | fragment name selectionSet => cases hdefinition
  | operation selectionSet =>
    obtain rfl := Option.some.inj hdefinition
    have hcount := mem_map_of_mem (f := fun definition => Graphql.selectionCount definition.selectionSet) hmem
    exact single_le_sum (fun _ _ => Nat.zero_le _) _ hcount

theorem finds_self (fragments : Fragments) : Finds fragments fragments := fun _ _ h => h

section Document

variable {doc : Document} {inlined : List (List Selection)}

theorem inlined_depth_le (h : inlinedOperations doc = some inlined) {out : List Selection} (hout : out ∈ inlined) :
    nestingDepth out ≤ 2 * doc.selectionCount := by
  obtain ⟨sels, hsels, hinline⟩ := forall₂_mem (mapM_some_forall₂ h) hout
  have hdepth := inlineSet_levels (fun _ _ hexpand => expandFragment_levels hexpand) sels out hinline
  have hsets := operation_levels hsels
  have hfragments := collectFragments_levels doc
  omega

/-- The depth that is counted for an operation is among those of the document. -/
theorem operation_documentLevels (limit : Nat) {sels : List Selection} (h : sels ∈ doc.operations) :
    followSpreads setLevels (limit + 1) limit (collectFragments doc) maxSpreads sels ≤ documentLevels limit doc := by
  obtain ⟨definition, hmem, hdefinition⟩ := mem_filterMap.mp h
  cases definition with
  | fragment name selectionSet => cases hdefinition
  | operation selectionSet =>
    obtain rfl := Option.some.inj hdefinition
    unfold documentLevels
    generalize collectFragments doc = fragments
    generalize doc.definitions = definitions at hmem ⊢
    induction definitions with
    | nil => cases hmem
    | cons definition definitions ih =>
      rw [map_cons, foldr_cons]
      rcases mem_cons.mp hmem with rfl | hmem
      · exact Nat.le_max_left _ _
      · exact (ih hmem).trans (Nat.le_max_right _ _)

theorem documentLevels_le (limit : Nat) (doc : Document) :
    documentLevels limit doc ≤ 34 * doc.selectionCount + (limit + 1) := by
  have hfragments := collectFragments_levels doc
  have hset : ∀ definition ∈ doc.definitions, followSpreads setLevels (limit + 1) limit (collectFragments doc) maxSpreads
      definition.selectionSet ≤ 34 * doc.selectionCount + (limit + 1) := by
    intro definition hmem
    have hcount := mem_map_of_mem (f := fun definition => Graphql.selectionCount definition.selectionSet) hmem
    have hle := single_le_sum (fun _ _ => Nat.zero_le _) _ hcount
    have hnesting := nestingDepth_le definition.selectionSet
    have hfollow : followSpreads setLevels (limit + 1) limit (collectFragments doc) maxSpreads definition.selectionSet ≤
        nestingDepth definition.selectionSet + maxSpreads * (collectFragments doc).levels + (limit + 1) :=
      followSpreads_le (fun _ _ h => levels_lookup_le h) maxSpreads definition.selectionSet
    have hall : Graphql.selectionCount definition.selectionSet ≤ doc.selectionCount := hle
    have hspreads : maxSpreads * (collectFragments doc).levels ≤ 33 * doc.selectionCount :=
      Nat.mul_le_mul (Nat.le_refl 33) hfragments
    omega
  unfold documentLevels
  generalize doc.definitions = definitions at hset ⊢
  induction definitions with
  | nil => exact Nat.zero_le _
  | cons definition definitions ih =>
    obtain ⟨hfirst, hrest⟩ := forall_mem_cons.mp hset
    rw [map_cons, foldr_cons]
    exact Nat.max_le.mpr ⟨hfirst, ih hrest⟩

/-- A document in memory whose depth is accepted has its operations inlined within the limit. -/
theorem depth_sound (hheld : doc.selectionCount < 2 ^ 57) (h : inlinedOperations doc = some inlined) {limit : Nat}
    (haccept : calculateDepthAst limit doc ≤ limit) {out : List Selection} (hout : out ∈ inlined) :
    nestingDepth out ≤ limit := by
  have hdepth := inlined_depth_le h hout
  have hlevels := documentLevels_le limit doc
  have hsize : usizeSize = 2 ^ 64 := rfl
  by_cases hword : documentLevels limit doc < usizeSize
  · rw [calculateDepthAst_eq hword] at haccept
    obtain ⟨sels, hsels, hinline⟩ := forall₂_mem (mapM_some_forall₂ h) hout
    have hoperation := operation_documentLevels limit hsels
    have hsound : limit < followSpreads setLevels (limit + 1) limit (collectFragments doc) maxSpreads sels ∨
        nestingDepth out ≤ followSpreads setLevels (limit + 1) limit (collectFragments doc) maxSpreads sels :=
      inlined_sound (fun hspread => setLevels_sound hspread) (finds_self _) hinline
    omega
  · omega

theorem weight_sound (h : inlinedOperations doc = some inlined) (limit : Nat) :
    limit < documentWeight limit doc ∨ (inlined.map inlinedComplexity).sum ≤ documentWeight limit doc := by
  have hboth := mapM_some_forall₂ h
  clear h
  unfold documentWeight
  generalize doc.operations = operations at hboth ⊢
  induction hboth with
  | nil => exact .inr (Nat.le_refl 0)
  | @cons sels out _ _ hinline _ ih =>
    have hsound : limit < followSpreads setWeight (limit + 1) 10 (collectFragments doc) maxSpreads sels ∨
        inlinedComplexity out ≤ followSpreads setWeight (limit + 1) 10 (collectFragments doc) maxSpreads sels :=
      inlined_sound (fun hspread => setWeight_sound hspread) (finds_self _) hinline
    simp only [map_cons, sum_cons]
    omega

end Document

/-- With both validations enabled a document is accepted when the three scores keep to the limits. -/
theorem validateDocument_ok_iff {v : RequestValidator} (hdepth : v.validateDepth = true)
    (hcomplexity : v.validateComplexity = true) (doc : Document) :
    v.validateDocument doc = .ok () ↔ calculateDepthAst v.maxDepth doc ≤ v.maxDepth ∧
      calculateComplexityAst v.maxComplexity doc ≤ v.maxComplexity ∧ countAliasesAst doc ≤ v.maxAliasesPerQuery := by
  unfold RequestValidator.validateDocument
  rw [hdepth, hcomplexity]
  simp only [Bool.not_true, Bool.false_and, Bool.false_eq_true, if_false, Bool.true_and, decide_eq_true_eq]
  split_ifs <;> simp_all

theorem setDepth_lt (spread : Name → Nat) (sels : List Selection) : setDepth spread sels < usizeSize := by
  cases sels with
  | nil => exact Nat.two_pow_pos 64
  | cons sel sels => exact Nat.mod_lt _ (Nat.two_pow_pos 64)

theorem calculateDepthAst_lt (limit : Nat) (doc : Document) : calculateDepthAst limit doc < usizeSize := by
  unfold calculateDepthAst
  induction doc.definitions with
  | nil => exact Nat.two_pow_pos 64
  | cons definition definitions ih =>
    rw [map_cons, foldr_cons]
    exact Nat.max_lt.mpr ⟨setDepth_lt _ _, ih⟩

/-- Limits with the largest depth there is. -/
def looseValidator (maxComplexity maxAliasesPerQuery : Nat) (hcomplexity : maxComplexity < usizeSize)
    (haliases : maxAliasesPerQuery < usizeSize) : RequestValidator :=
  ⟨usizeSize - 1, maxComplexity, maxAliasesPerQuery, true, true, by decide, hcomplexity, haliases⟩

/-- Whatever the limits, the documents that are accepted keep to them when inlined, exactly on the documents whose
spreads can be inlined, with no more aliased fields than are written and no weight that wraps below a limit. -/
theorem validateDocument_sound_iff (doc : HeldDocument) :
    (∀ v : RequestValidator, v.validateDepth = true → v.validateComplexity = true →
      v.validateDocument doc.toDocument = .ok () → WithinLimits v doc.toDocument) ↔
    ∃ inlined, inlinedOperations doc.toDocument = some inlined ∧ Limitable doc.toDocument inlined := by
  have hlast : usizeSize - 1 < usizeSize := by decide
  constructor
  · intro h
    have haliases : countAliasesAst doc.toDocument < usizeSize :=
      (countAliasesAst_le _).trans_lt (doc.held.trans (by decide))
    have haccept : ∀ {limit : Nat} (hlimit : limit < usizeSize),
        calculateComplexityAst limit doc.toDocument ≤ limit →
          WithinLimits (looseValidator limit (countAliasesAst doc.toDocument) hlimit haliases) doc.toDocument := by
      intro limit hlimit hcomplexity
      refine h _ rfl rfl ((validateDocument_ok_iff rfl rfl _).mpr ⟨?_, hcomplexity, Nat.le_refl _⟩)
      exact Nat.le_sub_one_of_lt (calculateDepthAst_lt _ _)
    have hlargest : calculateComplexityAst (usizeSize - 1) doc.toDocument ≤ usizeSize - 1 := by
      rw [calculateComplexityAst_eq]
      exact Nat.le_sub_one_of_lt (Nat.mod_lt _ (by decide))
    obtain ⟨inlined, hinlined, -, -, hcount⟩ := haccept hlast hlargest
    refine ⟨inlined, hinlined, hcount, ?_⟩
    intro limit hlimit hlt _
    by_contra hle
    rw [← calculateComplexityAst_eq, Nat.not_lt] at hle
    obtain ⟨inlined', hinlined', -, hcomplexity, -⟩ := haccept hlimit hle
    obtain rfl := Option.some.inj (hinlined.symm.trans hinlined')
    exact absurd hcomplexity (Nat.not_le.mpr hlt)
  · rintro ⟨inlined, hinlined, hlimitable⟩ v hdepth hcomplexity hok
    obtain ⟨hdepth, hcomplexity, haliases⟩ := (validateDocument_ok_iff hdepth hcomplexity _).mp hok
    refine ⟨inlined, hinlined, fun out hout => depth_sound doc.held hinlined hdepth hout, ?_,
      hlimitable.aliases.trans haliases⟩
    by_contra hlt
    rw [Nat.not_le] at hlt
    have hword : usizeSize ≤ documentWeight v.maxComplexity doc.toDocument := by
      by_contra hsmall
      rw [calculateComplexityAst_eq, Nat.mod_eq_of_lt (Nat.not_le.mp hsmall)] at hcomplexity
      have hsound := weight_sound hinlined v.maxComplexity
      omega
    have hwraps := hlimitable.wraps v.maxComplexity v.fits.2.1 hlt hword
    rw [← calculateComplexityAst_eq] at hwraps
    omega

/-- `query { ...Pair ...Pair } fragment Pair on Query { a: x }`. -/
def pairDocument : Document :=
  ⟨[.operation [.fragmentSpread ⟨"Pair", by decide⟩ [], .fragmentSpread ⟨"Pair", by decide⟩ []],
    .fragment ⟨"Pair", by decide⟩ [.field (some ⟨"a", by decide⟩) ⟨"x", by decide⟩ [] [] []]]⟩

/-- The default limits with one alias. -/
def oneAlias : RequestValidator := ⟨10, 100, 1, true, true, by decide⟩

theorem pair_accepted : oneAlias.validateDocument pairDocument = .ok () ∧ ¬WithinLimits oneAlias pairDocument := by
  constructor
  · decide +kernel
  · rintro ⟨inlined, hinlined, -, -, haliases⟩
    have htwice : inlinedOperations pairDocument =
        some [[.field (some ⟨"a", by decide⟩) ⟨"x", by decide⟩ [] [] [],
          .field (some ⟨"a", by decide⟩) ⟨"x", by decide⟩ [] [] []]] := rfl
    obtain rfl := Option.some.inj (htwice.symm.trans hinlined)
    exact absurd haliases (by decide)

end FraiseQL.Graphql
