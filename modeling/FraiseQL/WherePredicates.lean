import FraiseQL.PostgresPredicate
import FraiseQL.WhereGeneratorAlignment

/-! The predicates that the two WHERE generators write for PostgreSQL. An operator that both take is of one of a few
kinds; by its kind a condition becomes one predicate in the wire generator, with its value in the text, and another in
the generic one, with its value bound. For every clause that both accept the texts are those of the two formulas, the
bound values standing for themselves. -/

namespace FraiseQL.WherePredicates

open SqlLex PostgresPredicate Outcome WhereSqlGenerator List Except
open SqlLike (wildText)
open WhereGenerator (Formula GenState Condition escapeLikeLiteral)
open Aggregate.SqlGenerator (joinWith_eq_joined pushAll_values)

/-! ### Kinds of operators -/

inductive Kind where
  | compare (op : CompareOp)
  | membership (negated : Bool)
  | wildcards (insensitive before after : Bool)
  | like (insensitive negated : Bool)
  | regex (insensitive negated : Bool)
  | json (op : JsonOp)
  | isNull

/-- The kind of an operator that the wire generator takes. -/
def kindOf : WhereOperator → Option Kind
  | .eq => some (.compare .eq)
  | .neq => some (.compare .neq)
  | .gt => some (.compare .gt)
  | .gte => some (.compare .gte)
  | .lt => some (.compare .lt)
  | .lte => some (.compare .lte)
  | .isIn => some (.membership false)
  | .nin => some (.membership true)
  | .contains => some (.wildcards false true true)
  | .icontains => some (.wildcards true true true)
  | .startswith => some (.wildcards false false true)
  | .istartswith => some (.wildcards true false true)
  | .endswith => some (.wildcards false true false)
  | .iendswith => some (.wildcards true true false)
  | .like => some (.like false false)
  | .ilike => some (.like true false)
  | .nlike => some (.like false true)
  | .nilike => some (.like true true)
  | .regex => some (.regex false false)
  | .iregex => some (.regex true false)
  | .nregex => some (.regex false true)
  | .niregex => some (.regex true true)
  | .arrayContains => some (.json .contains)
  | .arrayContainedBy => some (.json .containedBy)
  | .arrayOverlaps => some (.json .overlaps)
  | .isNull => some .isNull
  | _ => none

def scalarLiteral : Json → Option Literal
  | .null => some .null
  | .bool b => some (.bool b)
  | .num n => some (.num n)
  | .str s => some (.str s.toList)
  | _ => none

/-- A bound value as a literal. -/
def literalOf (value : Json) : Literal := (scalarLiteral value).getD (.json value.text.toList)

/-! ### The two predicates of a condition -/

def wireSource : List String → Source
  | [] => .document
  | [key] => .arrows [] key
  | path => .hash path.dropLast (path.getLastD "")

def genericSource : List String → Source
  | [] => .document
  | path => .arrows path.dropLast (path.getLastD "")

/-- The operator the wire generator writes, where it writes a literal after it. -/
def Kind.operator : Kind → Operator
  | .compare op => .compare op
  | .wildcards insensitive _ _ => .like insensitive false
  | .like insensitive negated => .like insensitive negated
  | .regex insensitive negated => .regex insensitive negated
  | .json op => .json op
  | .membership _ | .isNull => .compare .eq

/-- A literal with the wildcards that the wire generator puts inside it. -/
def Kind.withWildcards : Kind → Literal → Literal
  | .wildcards _ before after, .str s => .str (wildText before after s)
  | _, v => v

def wirePredicate (s : Source) (kind : Kind) (value : Json) : Option Predicate :=
  match kind, value with
  | .isNull, value => some (.isNull (!value.asBool?.getD true) s)
  | .membership negated, .arr items => (items.mapM scalarLiteral).map fun vs => .anyArray s negated vs
  | .membership _, _ => none
  | .json op, .arr items => some (.binary s (.json op) (.json (Json.arr items).text.toList))
  | kind, value => (scalarLiteral value).map fun v => .binary s kind.operator (kind.withWildcards v)

def genericCompare (s : Source) (op : CompareOp) (value : Json) : Predicate :=
  match op, value with
  | .eq, .num _ | .neq, .num _ => .numeric s op (literalOf value)
  | .eq, .bool _ | .neq, .bool _ => .boolean s op (literalOf value)
  | .eq, _ | .neq, _ => .binary s (.compare op) (literalOf value)
  | _, _ => .numeric s op (literalOf value)

def genericFormula (s : Source) (kind : Kind) (value : Json) : Option (Formula Predicate) :=
  match kind, value with
  | .isNull, value => some (.leaf (.isNull (!value.asBool?.getD true) s))
  | .membership negated, .arr [] => some (if negated then .and [] else .or [])
  | .membership negated, .arr items => some (.leaf (.inList s negated (items.map literalOf)))
  | .membership _, _ => none
  | .compare op, value => some (.leaf (genericCompare s op value))
  | .wildcards insensitive before after, .str v =>
    some (.leaf (.wildcards s insensitive before after (.str (escapeLikeLiteral v).toList)))
  | .wildcards _ _ _, _ => none
  | .like insensitive negated, value =>
    some (.leaf (if negated then .notLike s insensitive (literalOf value)
      else .binary s (.like insensitive false) (literalOf value)))
  | .regex insensitive negated, value => some (.leaf (.binary s (.regex insensitive negated) (literalOf value)))
  | .json op, value => some (.leaf (.jsonb s op (literalOf value)))

/-- The comparison of a native column. -/
def nativeOp : WhereOperator → Option CompareOp
  | .eq => some .eq
  | .neq => some .neq
  | _ => none

/-- A column as the wire generator writes it, with its single quotes doubled. -/
def wireIdentifier (column : String) : List Char := '"' :: doubled .single column.toList ++ ['"']

def genericIdentifier (column : String) : List Char := quote .double column.toList

mutual

/-- The formula the wire generator writes. -/
def wireOf : WhereClause → Option (Formula Predicate)
  | .field path op value => (kindOf op).bind fun kind => (wirePredicate (wireSource path) kind value).map .leaf
  | .and clauses => (wireAll clauses).map .and
  | .or clauses => (wireAll clauses).map .or
  | .not clause => (wireOf clause).map .not
  | .nativeField column _ op value => (nativeOp op).bind fun op =>
    (scalarLiteral value).map fun v => .leaf (.native (wireIdentifier column) op v .none)

def wireAll : List WhereClause → Option (List (Formula Predicate))
  | [] => some []
  | clause :: clauses => (wireOf clause).bind fun f => (wireAll clauses).map (f :: ·)

end

mutual

/-- The formula the generic generator writes, with the bound values in place. -/
def genericOf : WhereClause → Option (Formula Predicate)
  | .field path op value => (kindOf op).bind fun kind => genericFormula (genericSource path) kind value
  | .and clauses => (genericAll clauses).map .and
  | .or clauses => (genericAll clauses).map .or
  | .not clause => (genericOf clause).map .not
  | .nativeField column pgCast op value => (nativeOp op).map fun op =>
    .leaf (.native (genericIdentifier column) op (literalOf value) pgCast)

def genericAll : List WhereClause → Option (List (Formula Predicate))
  | [] => some []
  | clause :: clauses => (genericOf clause).bind fun f => (genericAll clauses).map (f :: ·)

end

/-! ### Texts of the wire generator -/

theorem wireSource_render (path : List String) :
    jsonPathText path = (wireSource path).render := by
  match path with
  | [] => rfl
  | [key] => rfl
  | first :: second :: path => rfl

/-- A literal with the wildcards of an operator. -/
def spelled (op : WhereOperator) : Literal → Literal
  | .str s => .str (WhereSqlGenerator.withWildcards op s)
  | v => v

variable {value : Json} {op : WhereOperator} {sql : WhereSqlGenerator.Sql}

theorem scalarToSql_render (h : scalarToSql value op = .ok sql) : ∃ v, scalarLiteral value = some v ∧
      renderSql sql = (spelled op v).render := by
  cases value with
  | null =>
    obtain rfl := ok.inj h
    exact ⟨_, rfl, rfl⟩
  | bool b | num n =>
    obtain rfl := ok.inj h
    exact ⟨_, rfl, append_nil _⟩
  | str s =>
    obtain ⟨content, hcontent, rfl⟩ := map_eq_ok.mp h
    rw [escapeSqlString] at hcontent
    split_ifs at hcontent
    obtain rfl := ok.inj hcontent
    exact ⟨_, rfl, append_nil _⟩
  | arr items => cases h
  | obj entries => cases h

theorem operatorToSql_kind {cs : List Char} (h : operatorToSql op = .ok cs) :
    ∃ kind, kindOf op = some kind ∧ match kind with
      | .membership negated => cs = if negated then lit "!= ALL" else lit "= ANY"
      | .isNull => False
      | kind => cs = kind.operator.sql := by
  cases op <;> first | exact ⟨_, rfl, (ok.inj h).symm⟩ | cases h

variable {kind : Kind}

theorem spelled_kind (hkind : kindOf op = some kind) (v : Literal) : spelled op v = kind.withWildcards v := by
  cases v with
  | str s => cases op <;> cases hkind <;> simp [spelled, withWildcards, Kind.withWildcards, wildText]
  | _ => cases kind <;> rfl

theorem renderSql_append (a b : WhereSqlGenerator.Sql) : renderSql (a ++ b) =
    renderSql a ++ renderSql b := flatMap_append

theorem renderSql_cons (a : WhereSqlGenerator.Piece) (b : WhereSqlGenerator.Sql) :
    renderSql (a :: b) = a.render ++ renderSql b := flatMap_cons

theorem renderParts_cons (a : Part) (b : List Part) : renderParts (a :: b) = a.render ++ renderParts b :=
  flatMap_cons

theorem renderParts_append (a b : List Part) : renderParts (a ++ b) = renderParts a ++ renderParts b :=
  flatMap_append

/-- Texts that are joined alike. -/
theorem joined_render {parts : List WhereSqlGenerator.Sql} {parts' : List (List Part)} (sep : List Char)
    (h : parts.map renderSql = parts'.map renderParts) :
    renderSql (joinSql sep parts) = renderParts (joined (.text sep) parts') := by
  induction parts generalizing parts' with
  | nil =>
    obtain rfl := map_eq_nil_iff.mp h.symm
    rfl
  | cons part parts ih =>
    obtain ⟨part', parts', rfl, hpart, hparts⟩ := map_eq_cons_iff.mp h.symm
    cases parts with
    | nil =>
      obtain rfl := map_eq_nil_iff.mp hparts
      exact hpart.symm
    | cons next parts =>
      obtain ⟨next', rest', rfl, -, -⟩ := map_eq_cons_iff.mp hparts
      rw [joinSql, joined_cons_cons, joined_cons_cons, renderSql_append, renderParts_append, hpart]
      have hrest := ih hparts.symm
      show _ ++ (sep ++ _) = _ ++ (sep ++ _)
      rw [← joinSql]
      exact congrArg (fun rest => renderSql part ++ (sep ++ rest)) hrest

theorem itemsToSql_render {items : List Json} {parts : List WhereSqlGenerator.Sql}
    (h : itemsToSql items = .ok parts) : ∃ vs, items.mapM scalarLiteral = some vs ∧
      parts.map renderSql = vs.map fun v => renderParts [.value v] := by
  induction items generalizing parts with
  | nil =>
    obtain rfl := ok.inj h
    exact ⟨[], rfl, rfl⟩
  | cons item items ih =>
    simp only [itemsToSql, bind_eq_ok, pure_eq_ok] at h
    obtain ⟨part, hpart, rest, hrest, rfl⟩ := h
    obtain ⟨v, hv, hrender⟩ := scalarToSql_render hpart
    obtain ⟨vs, hvs, hrenders⟩ := ih hrest
    refine ⟨v :: vs, ?_, ?_⟩
    · rw [mapM_cons, hv, hvs]
      rfl
    · rw [map_cons, map_cons, hrenders, hrender]
      have hplain : spelled .eq v = v := by
        cases v <;> rfl
      rw [hplain]
      show _ :: _ = (v.render ++ []) :: _
      rw [append_nil]

theorem valueToSql_membership {negated : Bool} (hkind : kindOf op = some (.membership negated))
    (items : List Json) : valueToSql (.arr items) op =
      (itemsToSql items).map fun parts =>
        .text (lit "ARRAY[") :: joinSql (lit ", ") parts ++ [.text (lit "]")] := by
  cases op <;> cases hkind <;> rfl

theorem valueToSql_json {jsonOp : JsonOp} (hkind : kindOf op = some (.json jsonOp)) (items : List Json) :
    valueToSql (.arr items) op = jsonToSql (.arr items) := by
  cases op <;> cases hkind <;> rfl

theorem valueToSql_scalar (hkind : kindOf op = some kind)
    (h : (∀ items, value ≠ .arr items) ∨ (∀ negated, kind ≠ .membership negated) ∧ ∀ jsonOp, kind ≠ .json jsonOp) :
    valueToSql value op = scalarToSql value op := by
  cases value with
  | arr items =>
    obtain h | ⟨hlist, hjson⟩ := h
    · exact absurd rfl (h items)
    · cases op <;> cases hkind <;> first | rfl | exact absurd rfl (hlist _) | exact absurd rfl (hjson _)
  | _ => cases op <;> rfl

/-- A comparison with a scalar. -/
theorem binary_render (path : List String) {sqlOp : List Char}
    {sqlValue : WhereSqlGenerator.Sql} (hkind : kindOf op = some kind) (hsql : sqlOp = kind.operator.sql)
    (hvalue : scalarToSql value op = .ok sqlValue) : ∃ v, scalarLiteral value = some v ∧
      renderSql (.path path :: .text (' ' :: sqlOp ++ [' ']) :: sqlValue) =
        renderParts (Predicate.binary (wireSource path) kind.operator (kind.withWildcards v)).parts := by
  obtain ⟨v, hv, hrender⟩ := scalarToSql_render hvalue
  refine ⟨v, hv, ?_⟩
  rw [spelled_kind hkind] at hrender
  show jsonPathText path ++ (_ ++ renderSql sqlValue) =
    (wireSource path).render ++ (spaced kind.operator.sql ++ (_ ++ []))
  rw [hrender, wireSource_render, hsql, append_nil]
  rfl

variable {path : List String}

theorem generateFieldPredicate_kind (h : generateFieldPredicate path op value = .ok sql) :
    ∃ kind, kindOf op = some kind := by
  simp only [generateFieldPredicate, bind_eq_ok] at h
  obtain ⟨_, -, h⟩ := h
  by_cases hnull : op = .isNull
  · exact ⟨.isNull, by rw [hnull]; rfl⟩
  · rw [if_neg hnull] at h
    simp only [comparison, bind_eq_ok] at h
    obtain ⟨sqlOp, hop, -⟩ := h
    obtain ⟨kind, hkind, -⟩ := operatorToSql_kind hop
    exact ⟨kind, hkind⟩

/-- What the wire generator writes for a condition. -/
theorem generateFieldPredicate_render (h : generateFieldPredicate path op value = .ok sql)
    (hkind : kindOf op = some kind) (hlist : ∀ negated, kind = .membership negated → ∃ items, value = .arr items) :
    ∃ p, wirePredicate (wireSource path) kind value = some p ∧
      renderSql sql = renderParts p.parts := by
  simp only [generateFieldPredicate, buildJsonPath, bind_eq_ok,
    pure_eq_ok] at h
  obtain ⟨_, ⟨_, -, rfl⟩, h⟩ := h
  by_cases hnull : op = .isNull
  · subst hnull
    obtain rfl := Option.some.inj hkind
    rw [if_pos rfl] at h
    obtain rfl := ok.inj h
    refine ⟨_, rfl, ?_⟩
    cases value.asBool?.getD true <;> simp [renderSql, renderParts, Predicate.parts,
      Part.render, WhereSqlGenerator.Piece.render, wireSource_render]
  · rw [if_neg hnull] at h
    simp only [comparison, bind_eq_ok, pure_eq_ok] at h
    obtain ⟨sqlOp, hop, sqlValue, hvalue, rfl⟩ := h
    obtain ⟨kind', hkind', hsql⟩ := operatorToSql_kind hop
    obtain rfl := Option.some.inj (hkind.symm.trans hkind')
    have hscalar : sqlOp = kind.operator.sql → ((∀ items, value ≠ .arr items) ∨
        (∀ negated, kind ≠ .membership negated) ∧ ∀ jsonOp, kind ≠ .json jsonOp) → ∃ v, scalarLiteral value = some v ∧
        renderSql (.path path :: .text (' ' :: sqlOp ++ [' ']) :: sqlValue) =
          renderParts (Predicate.binary (wireSource path) kind.operator (kind.withWildcards v)).parts := by
      intro hsql hkinds
      rw [valueToSql_scalar hkind hkinds] at hvalue
      exact binary_render path hkind hsql hvalue
    cases kind with
    | isNull => exact hsql.elim
    | membership negated =>
      obtain ⟨items, rfl⟩ := hlist negated rfl
      rw [valueToSql_membership hkind] at hvalue
      obtain ⟨parts, hparts, rfl⟩ := map_eq_ok.mp hvalue
      obtain ⟨vs, hvs, hrenders⟩ := itemsToSql_render hparts
      refine ⟨.anyArray (wireSource path) negated vs, ?_, ?_⟩
      · show (items.mapM scalarLiteral).map _ = _
        rw [hvs]
        rfl
      · have hjoined : renderSql (joinSql (lit ", ") parts) =
            renderParts (listed vs) := joined_render (lit ", ") (hrenders.trans (map_map).symm)
        have hspaced : ' ' :: sqlOp ++ [' '] = if negated then lit " != ALL " else lit " = ANY " := by
          rw [hsql]
          cases negated <;> rfl
        simp only [Predicate.parts, renderSql_append, renderParts_append, cons_append, nil_append,
          renderSql_cons, renderParts_cons, hjoined, ← hspaced]
        exact congrArg (· ++ _) (wireSource_render path)
    | json jsonOp =>
      cases value with
      | arr items =>
        rw [valueToSql_json hkind, jsonToSql] at hvalue
        split_ifs at hvalue
        obtain rfl := ok.inj hvalue
        refine ⟨_, rfl, ?_⟩
        rw [hsql]
        simp only [Predicate.parts, renderSql_cons, renderParts_cons, WhereSqlGenerator.Piece.render, Part.render,
          wireSource_render, Literal.render]
        simp [renderSql, renderParts, spaced, Kind.operator]
      | _ =>
        obtain ⟨v, hv, hrender⟩ := hscalar hsql (.inl (by rintro _ ⟨⟩))
        exact ⟨_, by simp [wirePredicate, hv], hrender⟩
    | _ =>
      obtain ⟨v, hv, hrender⟩ := hscalar hsql (.inr ⟨by rintro _ ⟨⟩, by rintro _ ⟨⟩⟩)
      exact ⟨_, by simp [wirePredicate, hv], hrender⟩

/-! ### Texts of the generic generator -/

/-- A piece of its SQL, with a bound value in the place of the placeholder. -/
def substituted : WhereGenerator.Piece → Part
  | .text cs => .text cs
  | .subject (.field path) => .source (genericSource path)
  | .subject (.column name) => .source (.column (genericIdentifier name))
  | .param _ value => .value (literalOf value)

/-- A fragment of a template, with the values of its condition. -/
def fragPart (s : Source) (values : List Json) : Frag → Part
  | .text cs => .text cs
  | .hole .field => .source s
  | .hole (.param i) =>
    match values[i]? with
    | some value => .value (literalOf value)
    | none => .text []

def subjectSource : WhereGenerator.Subject → Source
  | .field path => genericSource path
  | .column name => .column (genericIdentifier name)

/-- A substituted piece has the text of the piece, but for a placeholder. -/
theorem substituted_render (piece : WhereGenerator.Piece) : (substituted piece).render =
    match piece with
    | .param _ value => (literalOf value).render
    | piece => piece.render (WhereGenerator.new .postgres) := by
  match piece with
  | .text _ | .param _ _ | .subject (.column _) => rfl
  | .subject (.field []) => rfl
  | .subject (.field (first :: path)) =>
    show lit "data" ++ Dialect.postgresPath _ = lit "data" ++ Dialect.postgresPath _
    congr 2
    exact dropLast_append_getLast? _ (by simp [getLast?_cons])

theorem condition_parts (c : Condition) : c.sql.map substituted =
    c.template.map (fragPart (subjectSource c.subject) (c.bound.map Prod.snd)) := by
  rw [Condition.sql, map_map]
  refine map_congr_left fun frag _ => ?_
  cases frag with
  | text cs => rfl
  | hole hole =>
    cases hole with
    | field => cases hsubject : c.subject <;> simp [Condition.piece, substituted, fragPart, subjectSource, hsubject]
    | param i =>
      rw [Function.comp_apply, Condition.piece, fragPart, getElem?_map]
      cases c.bound[i]? <;> rfl

/-- The placeholders of a list stand for its items. -/
theorem placeholders_parts (s : Source) (values : List Json) :
    (WhereGenerator.placeholders values.length).map (List.map (fragPart s values)) =
      (values.map literalOf).map fun v => [.value v] := by
  rw [WhereGenerator.placeholders, map_map, map_map]
  refine ext_getElem (by simp) fun i hi _ => ?_
  have hbound : i < values.length := by simpa using hi
  simp [fragPart, hbound]

theorem listed_parts (s : Source) (values : List Json) :
    (joinWith (txt ", ") (WhereGenerator.placeholders values.length)).map (fragPart s values) =
      listed (values.map literalOf) := by
  rw [listed, ← placeholders_parts s values, txt, joinWith_eq_joined, joined_map]
  rfl

section

variable (s : Source) {value : Json} {values : List Json} {template : Template}

theorem membership_parts {negated : Bool} (h : WhereGenerator.membership negated value .postgres = .ok (values, template)) :
    ∃ F, genericFormula s (.membership negated) value = some F ∧ template.map (fragPart s values) = formulaParts F := by
  cases value with
  | arr items =>
    cases items with
    | nil =>
      obtain ⟨rfl, rfl⟩ := Prod.mk.inj (ok.inj h)
      exact ⟨_, rfl, by cases negated <;> rfl⟩
    | cons item items =>
      obtain ⟨rfl, rfl⟩ := Prod.mk.inj (ok.inj h)
      refine ⟨_, rfl, ?_⟩
      have hlisted := listed_parts s (item :: items)
      cases negated with
      | false =>
        simp only [map_append, hlisted, Bool.false_eq_true, if_false]
        simp [formulaParts, Predicate.parts, wildcard, WhereGenerator.lhs, txt, lit, fragPart]
      | true =>
        simp only [map_append, hlisted, if_true]
        simp [formulaParts, Predicate.parts, wildcard, WhereGenerator.lhs, txt, lit, fragPart]
  | _ => cases h

theorem patternMatch_parts {name : String} (insensitive before after : Bool) {parts : List Template}
    (hparts : joinWith (txt " || ") parts = (if before then txt "'%'" ++ txt " || " else []) ++ WhereGenerator.p ++
      (if after then txt " || " ++ txt "'%'" else []))
    (h : WhereGenerator.patternMatch name (if insensitive then Dialect.ilikeSql else Dialect.likeSql) parts value .postgres =
      .ok (values, template)) :
    ∃ F, genericFormula s (.wildcards insensitive before after) value = some F ∧
      template.map (fragPart s values) = formulaParts F := by
  cases value with
  | str content =>
    obtain ⟨rfl, rfl⟩ := Prod.mk.inj (ok.inj h)
    refine ⟨_, rfl, ?_⟩
    have hconcat : Dialect.concatSql parts .postgres = joinWith (txt " || ") parts := rfl
    rw [hconcat, hparts]
    cases insensitive <;> cases before <;> cases after <;> rfl
  | _ => cases h

theorem regexMatch_parts {insensitive negated : Bool}
    (h : WhereGenerator.regexMatch insensitive negated value .postgres = .ok (values, template)) :
    ∃ F, genericFormula s (.regex insensitive negated) value = some F ∧
      template.map (fragPart s values) = formulaParts F := by
  have hbinding : ([value], WhereGenerator.lhs ++ [.text (spaced (Operator.regex insensitive negated).sql)] ++
      WhereGenerator.p) = (values, template) := by
    simp only [WhereGenerator.regexMatch, Dialect.regexSql] at h
    split at h <;> simp only [bind_eq_ok, pure_eq_ok] at h <;>
      obtain ⟨_, -, _, hsql, h⟩ := h <;> rw [← h, ← ok.inj hsql] <;> cases insensitive <;> cases negated <;> rfl
  obtain ⟨rfl, rfl⟩ := Prod.mk.inj hbinding
  exact ⟨_, rfl, rfl⟩

/-- What the generic generator writes for a condition. -/
theorem conditionOf_parts {op : WhereOperator} {kind : Kind} (hkind : kindOf op = some kind)
    (h : WhereGenerator.conditionOf op value .postgres = .ok (values, template)) :
    ∃ F, genericFormula s kind value = some F ∧ template.map (fragPart s values) = formulaParts F := by
  cases op with
  | eq | neq =>
    cases hkind
    obtain ⟨rfl, rfl⟩ := Prod.mk.inj (ok.inj h)
    exact ⟨_, rfl, by cases value <;> rfl⟩
  | gt | gte | lt | lte =>
    cases hkind
    obtain ⟨rfl, rfl⟩ := Prod.mk.inj (ok.inj h)
    exact ⟨_, rfl, rfl⟩
  | isIn | nin =>
    cases hkind
    exact membership_parts s h
  | isNull =>
    cases hkind
    obtain ⟨rfl, rfl⟩ := Prod.mk.inj (ok.inj h)
    refine ⟨_, rfl, ?_⟩
    cases value.asBool?.getD true <;> rfl
  | contains =>
    cases hkind
    exact patternMatch_parts s false true true rfl h
  | icontains =>
    cases hkind
    exact patternMatch_parts s true true true rfl h
  | startswith =>
    cases hkind
    exact patternMatch_parts s false false true rfl h
  | istartswith =>
    cases hkind
    exact patternMatch_parts s true false true rfl h
  | endswith =>
    cases hkind
    exact patternMatch_parts s false true false rfl h
  | iendswith =>
    cases hkind
    exact patternMatch_parts s true true false rfl h
  | like | ilike | nlike | nilike =>
    cases hkind
    obtain ⟨rfl, rfl⟩ := Prod.mk.inj (ok.inj h)
    exact ⟨_, rfl, rfl⟩
  | regex | iregex | nregex | niregex =>
    cases hkind
    exact regexMatch_parts s h
  | arrayContains | arrayContainedBy | arrayOverlaps =>
    cases hkind
    obtain ⟨rfl, rfl⟩ := Prod.mk.inj (ok.inj h)
    exact ⟨_, rfl, rfl⟩
  | _ => cases hkind

end

theorem visitField_parts (hkind : kindOf op = some kind) {s s' : GenState} {c : Condition}
    (h : WhereGenerator.visitField (WhereGenerator.new .postgres) path op value s = .ok (c, s')) :
    ∃ F, genericFormula (genericSource path) kind value = some F ∧ c.sql.map substituted = formulaParts F := by
  simp only [WhereGenerator.visitField, bind_eq_ok, pure_eq_ok, Prod.mk.injEq] at h
  obtain ⟨⟨values, template⟩, hcondition, rfl, -⟩ := h
  obtain ⟨F, hF, hparts⟩ := conditionOf_parts (genericSource path) hkind hcondition
  refine ⟨F, hF, ?_⟩
  rw [condition_parts, ← hparts]
  show template.map (fragPart _ ((WhereGenerator.pushAll _ values s).1.map Prod.snd)) = _
  rw [pushAll_values]
  rfl

theorem nativeOp_kind {compare : CompareOp} (h : nativeOp op = some compare) : kindOf op = some (.compare compare) := by
  cases op <;> cases h <;> rfl

/-- Both texts of a comparison with a native column. -/
theorem native_parts {column : String} {pgCast : PgCast} {s s' : GenState}
    {c : Condition} (hwire : comparison (.column column) op value = .ok sql)
    (hgeneric : WhereGenerator.visitNativeField (WhereGenerator.new .postgres) column pgCast op value s = .ok (c, s')) :
    ∃ compare v, nativeOp op = some compare ∧ scalarLiteral value = some v ∧
      renderSql sql = renderParts (Predicate.native (wireIdentifier column) compare v .none).parts ∧
      c.sql.map substituted =
        (Predicate.native (genericIdentifier column) compare (literalOf value) pgCast).parts := by
  simp only [comparison, bind_eq_ok, pure_eq_ok] at hwire
  obtain ⟨sqlOp, hop, sqlValue, hvalue, rfl⟩ := hwire
  obtain ⟨compare, hcompare, hsql, hparts⟩ : ∃ compare, nativeOp op = some compare ∧ sqlOp = compare.sql ∧
      c.sql.map substituted = (Predicate.native (genericIdentifier column) compare (literalOf value) pgCast).parts := by
    cases op with
    | eq | neq =>
      obtain ⟨rfl, rfl⟩ := Prod.mk.inj (ok.inj hgeneric)
      refine ⟨_, rfl, (ok.inj hop).symm, ?_⟩
      rw [condition_parts]
      cases pgCast <;> rfl
    | _ => cases hgeneric
  have hkind := nativeOp_kind hcompare
  rw [valueToSql_scalar hkind (.inr ⟨by rintro _ ⟨⟩, by rintro _ ⟨⟩⟩)] at hvalue
  obtain ⟨v, hv, hrender⟩ := scalarToSql_render hvalue
  have hplain : spelled op v = v := by
    rw [spelled_kind hkind]
    cases v <;> rfl
  refine ⟨compare, v, hcompare, hv, ?_, hparts⟩
  rw [renderSql_cons, renderSql_cons, hrender, hplain, hsql]
  simp [Predicate.parts, renderParts, Part.render, Source.render, WhereSqlGenerator.Piece.render, wireIdentifier, spaced]

theorem wireAll_isEmpty {clauses : List WhereClause} {fs : List (Formula Predicate)} (h : wireAll clauses = some fs) :
    fs.isEmpty = clauses.isEmpty := by
  cases clauses with
  | nil =>
    obtain rfl := Option.some.inj h
    rfl
  | cons clause clauses =>
    simp only [wireAll, Option.bind_eq_some_iff, Option.map_eq_some_iff] at h
    obtain ⟨_, _, _, _, rfl⟩ := h
    rfl

theorem genericAll_isEmpty {clauses : List WhereClause} {fs : List (Formula Predicate)}
    (h : genericAll clauses = some fs) : fs.isEmpty = clauses.isEmpty := by
  cases clauses with
  | nil =>
    obtain rfl := Option.some.inj h
    rfl
  | cons clause clauses =>
    simp only [genericAll, Option.bind_eq_some_iff, Option.map_eq_some_iff] at h
    obtain ⟨_, _, _, _, rfl⟩ := h
    rfl

/-- Clauses between parentheses. -/
theorem enclosed_render {sep : List Char} {sqls : List WhereSqlGenerator.Sql} {parts : List (List Part)}
    (h : sqls.map renderSql = parts.map renderParts) :
    renderSql (.text (lit "(") :: joinSql sep sqls ++ [.text (lit ")")]) =
      renderParts (.text (lit "(") :: joined (.text sep) parts ++ [.text (lit ")")]) := by
  rw [cons_append, renderSql_cons, renderSql_append, joined_render sep h, cons_append, renderParts_cons,
    renderParts_append]
  rfl

theorem enclosed_substituted {sep : List Char} {sqls : List WhereGenerator.Sql} {parts : List (List Part)}
    (h : sqls.map (List.map substituted) = parts) :
    (WhereGenerator.Piece.text (lit "(") :: WhereGenerator.joinSql sep sqls ++ [WhereGenerator.Piece.text (lit ")")]).map
        substituted =
      .text (lit "(") :: joined (.text sep) parts ++ [.text (lit ")")] := by
  rw [map_append, map_cons, WhereGenerator.joinSql, joined_map, h]
  rfl

/-- The texts of both generators are those of the formulas of a clause. -/
structure Written (clause : WhereClause) (sql : WhereSqlGenerator.Sql) (pieces : WhereGenerator.Sql) : Prop where
  wire : ∃ F, wireOf clause = some F ∧ WhereSqlGenerator.renderSql sql = renderParts (formulaParts F)
  generic : ∃ G, genericOf clause = some G ∧ pieces.map substituted = formulaParts G

structure WrittenAll (clauses : List WhereClause) (sqls : List WhereSqlGenerator.Sql) (pieces : List WhereGenerator.Sql) :
    Prop where
  wire : ∃ Fs, wireAll clauses = some Fs ∧ sqls.map WhereSqlGenerator.renderSql = (formulaPartsAll Fs).map renderParts
  generic : ∃ Gs, genericAll clauses = some Gs ∧ pieces.map (List.map substituted) = formulaPartsAll Gs

mutual

theorem clause_written : ∀ (clause : WhereClause) {sql : WhereSqlGenerator.Sql} {pieces : WhereGenerator.Sql}
    {s s' : GenState}, toPieces clause = .ok sql →
    WhereGenerator.visit (WhereGenerator.new .postgres) clause s = .ok (pieces, s') → Written clause sql pieces
  | .field path op value, sql, pieces, s, s', hwire, hgeneric => by
    simp only [WhereGenerator.visit, bind_eq_ok, pure_eq_ok, Prod.mk.injEq] at hgeneric
    obtain ⟨⟨c, _⟩, hc, rfl, -⟩ := hgeneric
    obtain ⟨kind, hkind⟩ := generateFieldPredicate_kind hwire
    obtain ⟨G, hG, hparts⟩ := visitField_parts hkind hc
    have hlist : ∀ negated, kind = .membership negated → ∃ items, value = .arr items := by
      rintro negated rfl
      cases value with
      | arr items => exact ⟨items, rfl⟩
      | _ => cases hG
    obtain ⟨p, hp, hrender⟩ := generateFieldPredicate_render hwire hkind hlist
    refine ⟨⟨.leaf p, ?_, hrender⟩, ⟨G, ?_, hparts⟩⟩
    · rw [wireOf, hkind, Option.bind_some, hp]
      rfl
    · rw [genericOf, hkind, Option.bind_some, hG]
  | .nativeField column pgCast op value, sql, pieces, s, s', hwire, hgeneric => by
    simp only [toPieces, bind_eq_ok] at hwire
    obtain ⟨_, -, hwire⟩ := hwire
    simp only [WhereGenerator.visit, bind_eq_ok, pure_eq_ok, Prod.mk.injEq] at hgeneric
    obtain ⟨⟨c, _⟩, hc, rfl, -⟩ := hgeneric
    obtain ⟨compare, v, hcompare, hv, hrender, hparts⟩ := native_parts hwire hc
    refine ⟨⟨.leaf (.native (wireIdentifier column) compare v .none), ?_, hrender⟩,
      ⟨.leaf (.native (genericIdentifier column) compare (literalOf value) pgCast), ?_, hparts⟩⟩
    · rw [wireOf, hcompare, Option.bind_some, hv]
      rfl
    · rw [genericOf, hcompare]
      rfl
  | .and clauses, sql, pieces, s, s', hwire, hgeneric => by
    rw [toPieces] at hwire
    rw [WhereGenerator.visit] at hgeneric
    cases clauses with
    | nil =>
      obtain rfl := ok.inj hwire
      obtain ⟨rfl, -⟩ := Prod.mk.inj (ok.inj hgeneric)
      exact ⟨⟨.and [], rfl, rfl⟩, ⟨.and [], rfl, rfl⟩⟩
    | cons clause clauses =>
      obtain ⟨sqls, hsqls, rfl⟩ := map_eq_ok.mp hwire
      simp only [isEmpty_cons, Bool.false_eq_true, if_false, bind_eq_ok, pure_eq_ok,
        Prod.mk.injEq] at hgeneric
      obtain ⟨⟨parts, _⟩, hparts, rfl, -⟩ := hgeneric
      obtain ⟨⟨Fs, hFs, hrenders⟩, ⟨Gs, hGs, hsubstituted⟩⟩ := clauses_written (clause :: clauses) hsqls hparts
      refine ⟨⟨.and Fs, by rw [wireOf, hFs]; rfl, ?_⟩, ⟨.and Gs, by rw [genericOf, hGs]; rfl, ?_⟩⟩
      · rw [formulaParts, wireAll_isEmpty hFs]
        exact enclosed_render hrenders
      · rw [formulaParts, genericAll_isEmpty hGs]
        exact enclosed_substituted hsubstituted
  | .or clauses, sql, pieces, s, s', hwire, hgeneric => by
    rw [toPieces] at hwire
    rw [WhereGenerator.visit] at hgeneric
    cases clauses with
    | nil =>
      obtain rfl := ok.inj hwire
      obtain ⟨rfl, -⟩ := Prod.mk.inj (ok.inj hgeneric)
      exact ⟨⟨.or [], rfl, rfl⟩, ⟨.or [], rfl, rfl⟩⟩
    | cons clause clauses =>
      obtain ⟨sqls, hsqls, rfl⟩ := map_eq_ok.mp hwire
      simp only [isEmpty_cons, Bool.false_eq_true, if_false, bind_eq_ok, pure_eq_ok,
        Prod.mk.injEq] at hgeneric
      obtain ⟨⟨parts, _⟩, hparts, rfl, -⟩ := hgeneric
      obtain ⟨⟨Fs, hFs, hrenders⟩, ⟨Gs, hGs, hsubstituted⟩⟩ := clauses_written (clause :: clauses) hsqls hparts
      refine ⟨⟨.or Fs, by rw [wireOf, hFs]; rfl, ?_⟩, ⟨.or Gs, by rw [genericOf, hGs]; rfl, ?_⟩⟩
      · rw [formulaParts, wireAll_isEmpty hFs]
        exact enclosed_render hrenders
      · rw [formulaParts, genericAll_isEmpty hGs]
        exact enclosed_substituted hsubstituted
  | .not clause, sql, pieces, s, s', hwire, hgeneric => by
    rw [toPieces] at hwire
    obtain ⟨inner, hinner, rfl⟩ := map_eq_ok.mp hwire
    simp only [WhereGenerator.visit, bind_eq_ok, pure_eq_ok, Prod.mk.injEq] at hgeneric
    obtain ⟨⟨part, _⟩, hpart, rfl, -⟩ := hgeneric
    obtain ⟨⟨F, hF, hrender⟩, ⟨G, hG, hparts⟩⟩ := clause_written clause hinner hpart
    refine ⟨⟨.not F, by rw [wireOf, hF]; rfl, ?_⟩, ⟨.not G, by rw [genericOf, hG]; rfl, ?_⟩⟩
    · rw [formulaParts, cons_append, renderSql_cons, renderSql_append, hrender, cons_append, renderParts_cons,
        renderParts_append]
      rfl
    · rw [formulaParts, cons_append, map_cons, map_append, hparts]
      rfl

theorem clauses_written : ∀ (clauses : List WhereClause) {sqls : List WhereSqlGenerator.Sql}
    {pieces : List WhereGenerator.Sql} {s s' : GenState}, toPiecesAll clauses = .ok sqls →
    WhereGenerator.visitAll (WhereGenerator.new .postgres) clauses s = .ok (pieces, s') → WrittenAll clauses sqls pieces
  | [], sqls, pieces, s, s', hwire, hgeneric => by
    obtain rfl := ok.inj hwire
    obtain ⟨rfl, -⟩ := Prod.mk.inj (ok.inj hgeneric)
    exact ⟨⟨[], rfl, rfl⟩, ⟨[], rfl, rfl⟩⟩
  | clause :: clauses, sqls, pieces, s, s', hwire, hgeneric => by
    simp only [toPiecesAll, bind_eq_ok, pure_eq_ok] at hwire
    obtain ⟨sql, hsql, rest, hrest, rfl⟩ := hwire
    simp only [WhereGenerator.visitAll, bind_eq_ok, pure_eq_ok, Prod.mk.injEq] at hgeneric
    obtain ⟨⟨part, _⟩, hpart, ⟨parts, _⟩, hparts, rfl, -⟩ := hgeneric
    obtain ⟨⟨F, hF, hrender⟩, ⟨G, hG, hsubstituted⟩⟩ := clause_written clause hsql hpart
    obtain ⟨⟨Fs, hFs, hrenders⟩, ⟨Gs, hGs, hsubstituteds⟩⟩ := clauses_written clauses hrest hparts
    refine ⟨⟨F :: Fs, ?_, ?_⟩, ⟨G :: Gs, ?_, ?_⟩⟩
    · rw [wireAll, hF, hFs]
      rfl
    · rw [formulaPartsAll, map_cons, map_cons, hrender, hrenders]
    · rw [genericAll, hG, hGs]
      rfl
    · rw [formulaPartsAll, map_cons, hsubstituted, hsubstituteds]

end

end FraiseQL.WherePredicates
