import FraiseQL.Outcome
import FraiseQL.WhereClause

/-! Parsing a nested GraphQL `where` filter into a WHERE clause (`WhereClause::from_graphql_json`), against
what the filter means. Operators, nested fields and combinators share the keys of one JSON object; the
parser decides which a key is from where it stands. -/

namespace FraiseQL.WhereFilter

open Outcome Option

/-- The case tables of `char`: `is_uppercase`, and the first character of `to_lowercase`. -/
structure CharCase where
  isUppercase : Char → Bool
  toLowercase : Char → Char

/-- The tables on ASCII. -/
def CharCase.ascii : CharCase := ⟨Char.isUpper, Char.toLower⟩

def toSnakeCase (cc : CharCase) (name : String) : String :=
  String.ofList (name.toList.zipIdx.flatMap fun (ch, i) =>
    if cc.isUppercase ch && decide (0 < i) then ['_', cc.toLowercase ch] else [ch])

/-! ### The parser -/

/-- The last lines of `parse_where_object`. -/
def collapse : List WhereClause → WhereClause
  | [clause] => clause
  | clauses => .and clauses

def notAnObject : FraiseQLError := .validation "where clause must be a JSON object" none

def fieldNotAnObject (name : String) : FraiseQLError :=
  .validation ("where field '" ++ name ++ "' must be an object of \x7boperator: value\x7d") none

variable (cc : CharCase)

mutual

def parseWhereObject (pathPrefix : List String) : Json → Except FraiseQLError WhereClause
  | .obj entries => (parseEntries pathPrefix entries).map collapse
  | _ => .error notAnObject

/-- The items of an `_and` or `_or`. -/
def parseItems (pathPrefix : List String) : List Json → Except FraiseQLError (List WhereClause)
  | [] => .ok []
  | v :: vs => do
    let clause ← parseWhereObject pathPrefix v
    let clauses ← parseItems pathPrefix vs
    return clause :: clauses

/-- The loop over the entries of the object; the conditions of one entry come first. -/
def parseEntries (pathPrefix : List String) :
    List (String × Json) → Except FraiseQLError (List WhereClause)
  | [] => .ok []
  | (key, val) :: rest => do
    let here ← parseEntry pathPrefix key val
    let there ← parseEntries pathPrefix rest
    return here ++ there

/-- The conditions one entry pushes. The recursive call under `_not` is written out; see `parseEntry_not`. -/
def parseEntry (pathPrefix : List String) (key : String) (val : Json) :
    Except FraiseQLError (List WhereClause) :=
  if key = "_and" then
    match val with
    | .arr items => (parseItems pathPrefix items).map fun sub => [.and sub]
    | _ => .error (.validation "_and must be an array" none)
  else if key = "_or" then
    match val with
    | .arr items => (parseItems pathPrefix items).map fun sub => [.or sub]
    | _ => .error (.validation "_or must be an array" none)
  else if key = "_not" then
    match val with
    | .obj entries => (parseEntries pathPrefix entries).map fun sub => [.not (collapse sub)]
    | _ => .error notAnObject
  else
    match val with
    | .obj ops => parseOps (pathPrefix ++ [toSnakeCase cc key]) ops
    | _ => .error (fieldNotAnObject key)

/-- The loop over the keys under a field. An object under any other key is parsed again as the one-entry
object of that key; see `parseWhereObject_singleton`. -/
def parseOps (fieldPath : List String) :
    List (String × Json) → Except FraiseQLError (List WhereClause)
  | [] => .ok []
  | (opStr, opVal) :: rest =>
    let pushed : Except FraiseQLError (List WhereClause) :=
      match WhereOperator.fromStr opStr with
      | .ok operator => .ok [.field fieldPath operator opVal]
      | .error e =>
        if opVal.asObject?.isSome then
          (parseEntry fieldPath opStr opVal).map fun sub => [collapse sub]
        else .error e
    do
      let here ← pushed
      let there ← parseOps fieldPath rest
      return here ++ there

end

def fromGraphqlJson (value : Json) : Except FraiseQLError WhereClause := parseWhereObject cc [] value

/-! ### What a clause and a filter mean -/

section Meaning

/-- Where a path leads in a document. -/
def valueAt (doc : Json) : List String → Option Json
  | [] => some doc
  | name :: path => (doc.get? name).bind (valueAt · path)

-- What each operator says of the value at a path (none where the path leads nowhere) and its operand.
variable (holds : WhereOperator → Option Json → Json → Bool) (doc : Json)

mutual

/-- The truth value of a clause on a document; a native column is read as a field of it. -/
def eval : WhereClause → Bool
  | .field path operator value => holds operator (valueAt doc path) value
  | .and clauses => evalAll clauses
  | .or clauses => evalAny clauses
  | .not clause => !eval clause
  | .nativeField column _ operator value => holds operator (valueAt doc [column]) value

def evalAll : List WhereClause → Bool
  | [] => true
  | c :: cs => eval c && evalAll cs

def evalAny : List WhereClause → Bool
  | [] => false
  | c :: cs => eval c || evalAny cs

end

-- Whether a key under a field, with the value it holds, is an operator.
variable (isOperator : String → Json → Option WhereOperator)

mutual

/-- The reference meaning of a filter relative to a path: the conjunction of its entries; none outside the
grammar. -/
def meaning (path : List String) : Json → Option Bool
  | .obj entries => meaningEntries path entries
  | _ => none

def meaningItems (path : List String) : List Json → Option (List Bool)
  | [] => some []
  | v :: vs => do
    let b ← meaning path v
    let bs ← meaningItems path vs
    return b :: bs

def meaningEntries (path : List String) : List (String × Json) → Option Bool
  | [] => some true
  | (key, val) :: rest => do
    let b ← meaningEntry path key val
    let bs ← meaningEntries path rest
    return b && bs

/-- The combinators combine sub-filters relative to the enclosing path; any other key extends the path. -/
def meaningEntry (path : List String) (key : String) (val : Json) : Option Bool :=
  if key = "_and" then
    match val with
    | .arr items => (meaningItems path items).map fun bs => bs.all id
    | _ => none
  else if key = "_or" then
    match val with
    | .arr items => (meaningItems path items).map fun bs => bs.any id
    | _ => none
  else if key = "_not" then
    match val with
    | .obj entries => (meaningEntries path entries).map fun b => !b
    | _ => none
  else
    match val with
    | .obj ops => meaningUnder (path ++ [toSnakeCase cc key]) ops
    | _ => none

/-- Under a field an operator applies to the field's path; every other key is an entry relative to it. -/
def meaningUnder (path : List String) : List (String × Json) → Option Bool
  | [] => some true
  | (key, val) :: rest =>
    let here : Option Bool :=
      match isOperator key val with
      | some operator => some (holds operator (valueAt doc path) val)
      | none => meaningEntry path key val
    do
      let b ← here
      let bs ← meaningUnder path rest
      return b && bs

end

/-- A key under a field is an operator exactly when it is the name of one, whatever it holds. -/
def nameDecides (key : String) (_ : Json) : Option WhereOperator := (WhereOperator.fromStr key).toOption

/-- An object of operators under a key makes it a field, even when the key is the name of an operator. -/
def objectDecides (key : String) (val : Json) : Option WhereOperator :=
  match val with
  | .obj ops =>
    if ops ≠ [] ∧ ops.all fun e => (WhereOperator.fromStr e.1).isOk then none
    else (WhereOperator.fromStr key).toOption
  | _ => (WhereOperator.fromStr key).toOption

/-! ### The parser gives each filter its meaning -/

theorem evalAll_append (cs cs' : List WhereClause) :
    evalAll holds doc (cs ++ cs') = (evalAll holds doc cs && evalAll holds doc cs') := by
  induction cs with
  | nil => simp [evalAll]
  | cons c cs ih => rw [List.cons_append, evalAll, evalAll, ih, Bool.and_assoc]

variable (cs : List WhereClause)

theorem evalAll_eq_all : evalAll holds doc cs = (cs.map (eval holds doc)).all id := by
  induction cs with
  | nil => rfl
  | cons c cs ih => rw [evalAll, ih, List.map_cons, List.all_cons, id]

theorem evalAny_eq_any : evalAny holds doc cs = (cs.map (eval holds doc)).any id := by
  induction cs with
  | nil => rfl
  | cons c cs ih => rw [evalAny, ih, List.map_cons, List.any_cons, id]

theorem evalAll_singleton (c : WhereClause) : evalAll holds doc [c] = eval holds doc c := by
  rw [evalAll, evalAll, Bool.and_true]

theorem eval_collapse : eval holds doc (collapse cs) = evalAll holds doc cs := by
  match cs with
  | [] => rfl
  | [c] => exact (evalAll_singleton holds doc c).symm
  | _ :: _ :: _ => rfl

-- Structural recursion over the filter, one theorem for each function of the parser.
mutual

theorem meaning_of_parseWhereObject (path : List String) :
    ∀ (v : Json) (c : WhereClause), parseWhereObject cc path v = .ok c →
      meaning cc holds doc nameDecides path v = some (eval holds doc c)
  | .obj entries, c, h => by
    rw [parseWhereObject, map_eq_ok] at h
    obtain ⟨cs, hcs, rfl⟩ := h
    rw [meaning, meaning_of_parseEntries path entries cs hcs, eval_collapse]
  | .null, _, h => nomatch h
  | .bool _, _, h => nomatch h
  | .num _, _, h => nomatch h
  | .str _, _, h => nomatch h
  | .arr _, _, h => nomatch h

theorem meaning_of_parseItems (path : List String) :
    ∀ (vs : List Json) (cs : List WhereClause), parseItems cc path vs = .ok cs →
      meaningItems cc holds doc nameDecides path vs = some (cs.map (eval holds doc))
  | [], cs, h => by
    cases h
    rfl
  | v :: vs, cs, h => by
    simp only [parseItems, bind_eq_ok, pure_eq_ok] at h
    obtain ⟨c, hc, cs', hcs, rfl⟩ := h
    rw [meaningItems, meaning_of_parseWhereObject path v c hc, meaning_of_parseItems path vs cs' hcs]
    rfl

theorem meaning_of_parseEntries (path : List String) :
    ∀ (es : List (String × Json)) (cs : List WhereClause), parseEntries cc path es = .ok cs →
      meaningEntries cc holds doc nameDecides path es = some (evalAll holds doc cs)
  | [], cs, h => by
    cases h
    rfl
  | (key, val) :: es, cs, h => by
    simp only [parseEntries, bind_eq_ok, pure_eq_ok] at h
    obtain ⟨here, hhere, there, hthere, rfl⟩ := h
    rw [meaningEntries, meaning_of_parseEntry path key val here hhere,
      meaning_of_parseEntries path es there hthere, evalAll_append]
    rfl

theorem meaning_of_parseEntry (path : List String) (key : String) :
    ∀ (val : Json) (cs : List WhereClause), parseEntry cc path key val = .ok cs →
      meaningEntry cc holds doc nameDecides path key val = some (evalAll holds doc cs)
  | .arr items, cs, h => by
    by_cases hand : key = "_and"
    · simp only [parseEntry, if_pos hand, map_eq_ok] at h
      obtain ⟨sub, hsub, rfl⟩ := h
      simp only [meaningEntry, if_pos hand]
      rw [meaning_of_parseItems path items sub hsub, evalAll_singleton, eval, evalAll_eq_all]
      rfl
    · by_cases hor : key = "_or"
      · simp only [parseEntry, if_neg hand, if_pos hor, map_eq_ok] at h
        obtain ⟨sub, hsub, rfl⟩ := h
        simp only [meaningEntry, if_neg hand, if_pos hor]
        rw [meaning_of_parseItems path items sub hsub, evalAll_singleton, eval, evalAny_eq_any]
        rfl
      · simp only [parseEntry, if_neg hand, if_neg hor] at h
        split_ifs at h
  | .obj entries, cs, h => by
    by_cases hand : key = "_and"
    · simp [parseEntry, hand] at h
    · by_cases hor : key = "_or"
      · simp [parseEntry, hor] at h
      · by_cases hnot : key = "_not"
        · simp only [parseEntry, if_neg hand, if_neg hor, if_pos hnot, map_eq_ok] at h
          obtain ⟨sub, hsub, rfl⟩ := h
          simp only [meaningEntry, if_neg hand, if_neg hor, if_pos hnot]
          rw [meaning_of_parseEntries path entries sub hsub, evalAll_singleton, eval, eval_collapse]
          rfl
        · simp only [parseEntry, if_neg hand, if_neg hor, if_neg hnot] at h
          simp only [meaningEntry, if_neg hand, if_neg hor, if_neg hnot]
          exact meaning_of_parseOps _ entries cs h
  | .null, _, h | .bool _, _, h | .num _, _, h | .str _, _, h => by
    simp only [parseEntry] at h
    split_ifs at h

theorem meaning_of_parseOps (path : List String) :
    ∀ (ops : List (String × Json)) (cs : List WhereClause), parseOps cc path ops = .ok cs →
      meaningUnder cc holds doc nameDecides path ops = some (evalAll holds doc cs)
  | [], cs, h => by
    cases h
    rfl
  | (key, val) :: ops, cs, h => by
    simp only [parseOps, bind_eq_ok, pure_eq_ok] at h
    obtain ⟨here, hhere, there, hthere, rfl⟩ := h
    rw [meaningUnder, meaning_of_parseOps path ops there hthere, evalAll_append]
    cases hop : WhereOperator.fromStr key with
    | ok operator =>
      have hname : nameDecides key val = some operator := by rw [nameDecides, hop, Except.toOption]
      rw [hop] at hhere
      cases hhere
      rw [hname, evalAll_singleton]
      rfl
    | error e =>
      have hname : nameDecides key val = none := by rw [nameDecides, hop, Except.toOption]
      rw [hop] at hhere
      dsimp only at hhere
      split_ifs at hhere
      obtain ⟨sub, hsub, rfl⟩ := map_eq_ok.mp hhere
      rw [hname, meaning_of_parseEntry path key val sub hsub, evalAll_singleton, eval_collapse]
      rfl

end

/-! ### What the parser accepts -/

-- No `_and` or `_or` directly under a field.
mutual

def listFree : Json → Bool
  | .obj entries => listFreeEntries entries
  | _ => true

def listFreeItems : List Json → Bool
  | [] => true
  | v :: vs => listFree v && listFreeItems vs

def listFreeEntries : List (String × Json) → Bool
  | [] => true
  | (key, val) :: rest => listFreeEntry key val && listFreeEntries rest

def listFreeEntry (key : String) (val : Json) : Bool :=
  match val with
  | .arr items => listFreeItems items
  | .obj entries => if key = "_not" then listFreeEntries entries else listFreeUnder entries
  | _ => true

def listFreeUnder : List (String × Json) → Bool
  | [] => true
  | (key, val) :: rest =>
    let here :=
      match WhereOperator.fromStr key with
      | .ok _ => true
      | .error _ => decide (key ≠ "_and") && decide (key ≠ "_or") && listFreeEntry key val
    here && listFreeUnder rest

end

theorem isObject_of_meaningEntry {key : String} {val : Json} {path : List String} {b : Bool}
    (h : meaningEntry cc holds doc nameDecides path key val = some b) (hand : key ≠ "_and")
    (hor : key ≠ "_or") : val.asObject?.isSome = true := by
  cases val with
  | obj entries => rfl
  | _ =>
    simp only [meaningEntry, if_neg hand, if_neg hor] at h
    split_ifs at h

mutual

theorem accepts_parseWhereObject (path : List String) :
    ∀ v : Json, (parseWhereObject cc path v).isOk = true ↔
      (meaning cc holds doc nameDecides path v).isSome = true ∧ listFree v = true
  | .obj entries => by
    rw [parseWhereObject, meaning, listFree, ← accepts_parseEntries path entries]
    cases parseEntries cc path entries <;> rfl
  | .null | .bool _ | .num _ | .str _ | .arr _ => by simp [parseWhereObject, meaning, Except.isOk, Except.toBool]

theorem accepts_parseItems (path : List String) :
    ∀ vs : List Json, (parseItems cc path vs).isOk = true ↔
      (meaningItems cc holds doc nameDecides path vs).isSome = true ∧ listFreeItems vs = true
  | [] => by simp [parseItems, meaningItems, listFreeItems, Except.isOk, Except.toBool]
  | v :: vs => by
    have hv := accepts_parseWhereObject path v
    have hvs := accepts_parseItems path vs
    rw [parseItems, isOk_both, meaningItems, isSome_both, listFreeItems, Bool.and_eq_true,
      hv, hvs]
    exact and_and_and_comm

theorem accepts_parseEntries (path : List String) :
    ∀ es : List (String × Json), (parseEntries cc path es).isOk = true ↔
      (meaningEntries cc holds doc nameDecides path es).isSome = true ∧ listFreeEntries es = true
  | [] => by simp [parseEntries, meaningEntries, listFreeEntries, Except.isOk, Except.toBool]
  | (key, val) :: es => by
    have hv := accepts_parseEntry path key val
    have hvs := accepts_parseEntries path es
    rw [parseEntries, isOk_both, meaningEntries, isSome_both, listFreeEntries,
      Bool.and_eq_true, hv, hvs]
    exact and_and_and_comm

theorem accepts_parseEntry (path : List String) (key : String) :
    ∀ val : Json, (parseEntry cc path key val).isOk = true ↔
      (meaningEntry cc holds doc nameDecides path key val).isSome = true ∧ listFreeEntry key val = true
  | .arr items => by
    have hitems := accepts_parseItems path items
    simp only [parseEntry, meaningEntry, listFreeEntry]
    split_ifs
    · rw [isOk_map, isSome_map, hitems]
    · rw [isOk_map, isSome_map, hitems]
    · simp [Except.isOk, Except.toBool]
    · simp [Except.isOk, Except.toBool]
  | .obj entries => by
    have hentries := accepts_parseEntries path entries
    have hops := accepts_parseOps (path ++ [toSnakeCase cc key]) entries
    by_cases hand : key = "_and"
    · simp [parseEntry, meaningEntry, hand, Except.isOk, Except.toBool]
    · by_cases hor : key = "_or"
      · simp [parseEntry, meaningEntry, hor, Except.isOk, Except.toBool]
      · by_cases hnot : key = "_not"
        · simp only [parseEntry, meaningEntry, listFreeEntry, if_neg hand, if_neg hor, if_pos hnot]
          rw [isOk_map, isSome_map, hentries]
        · simp only [parseEntry, meaningEntry, listFreeEntry, if_neg hand, if_neg hor, if_neg hnot]
          exact hops
  | .null | .bool _ | .num _ | .str _ => by simp [parseEntry, meaningEntry]; split_ifs <;> rfl

theorem accepts_parseOps (path : List String) :
    ∀ ops : List (String × Json), (parseOps cc path ops).isOk = true ↔
      (meaningUnder cc holds doc nameDecides path ops).isSome = true ∧ listFreeUnder ops = true
  | [] => by simp [parseOps, meaningUnder, listFreeUnder, Except.isOk, Except.toBool]
  | (key, val) :: ops => by
    have hv := accepts_parseEntry path key val
    have hvs := accepts_parseOps path ops
    rw [parseOps, isOk_both, meaningUnder, isSome_both, listFreeUnder, Bool.and_eq_true, hvs,
      and_and_and_comm]
    refine and_congr_left' ?_
    cases hop : WhereOperator.fromStr key with
    | ok operator =>
      have hname : nameDecides key val = some operator := by rw [nameDecides, hop, Except.toOption]
      simp [hname, Except.isOk, Except.toBool]
    | error e =>
      have hname : nameDecides key val = none := by rw [nameDecides, hop, Except.toOption]
      rw [hname]
      by_cases hobj : val.asObject?.isSome = true
      · have hlist : ∀ b, meaningEntry cc holds doc nameDecides path key val = some b →
            key ≠ "_and" ∧ key ≠ "_or" := by
          cases val with
          | obj entries => simp +contextual [meaningEntry]
          | _ => cases hobj
        simp only [hobj, if_true, isOk_map, hv, Bool.and_eq_true, decide_eq_true_eq]
        constructor
        · rintro ⟨hsome, hfree⟩
          obtain ⟨b, hb⟩ := isSome_iff_exists.mp hsome
          exact ⟨hsome, hlist b hb, hfree⟩
        · exact fun ⟨hsome, _, hfree⟩ => ⟨hsome, hfree⟩
      · simp only [hobj, Bool.and_eq_true, decide_eq_true_eq]
        constructor
        · exact fun h => nomatch h
        · rintro ⟨hsome, ⟨hand, hor⟩, _⟩
          obtain ⟨b, hb⟩ := isSome_iff_exists.mp hsome
          exact absurd (isObject_of_meaningEntry cc holds doc hb hand hor) hobj

end

end Meaning

/-- A clause the parser returns means, on every document, what the filter means; a value outside the
grammar is rejected; a filter of the grammar is accepted unless it has an `_and` or `_or` directly under a
field. -/
theorem fromGraphqlJson_correct (value : Json) (holds : WhereOperator → Option Json → Json → Bool)
    (doc : Json) :
    (∀ clause, fromGraphqlJson cc value = .ok clause →
      meaning cc holds doc nameDecides [] value = some (eval holds doc clause)) ∧
    (meaning cc holds doc nameDecides [] value = none → ∃ e, fromGraphqlJson cc value = .error e) ∧
    ((∃ clause, fromGraphqlJson cc value = .ok clause) ↔
      (meaning cc holds doc nameDecides [] value).isSome = true ∧ listFree value = true) := by
  refine ⟨fun clause => meaning_of_parseWhereObject cc holds doc [] value clause, ?_, ?_⟩
  · intro hnone
    cases hparse : fromGraphqlJson cc value with
    | error e => exact ⟨e, rfl⟩
    | ok clause =>
      rw [meaning_of_parseWhereObject cc holds doc [] value clause hparse] at hnone
      cases hnone
  · rw [← isOk_iff]
    exact accepts_parseWhereObject cc holds doc [] value

/-- A field named like an operator is read as that operator, although it holds an object of operators. -/
theorem operator_name_shadows_field :
    ¬∀ (cc : CharCase) (value : Json) (clause : WhereClause), fromGraphqlJson cc value = .ok clause →
      ∀ (holds : WhereOperator → Option Json → Json → Bool) (doc : Json),
        meaning cc holds doc objectDecides [] value = some (eval holds doc clause) := by
  intro hall
  have heq := hall .ascii (.obj [("machine", .obj [("contains", .obj [("eq", .str "x")])])])
    (.field ["machine"] .contains (.obj [("eq", .str "x")])) rfl
    (fun operator found operand => decide (operator = .eq ∧ found = some operand))
    (.obj [("machine", .obj [("contains", .str "x")])])
  exact absurd heq (by decide)

end FraiseQL.WhereFilter
