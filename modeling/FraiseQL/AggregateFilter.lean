import FraiseQL.AggregateSql
import FraiseQL.WhereGeneratorLexing

/-! Aggregate filters over dimensions as formulas. The text of a filter is laid out from a formula whose conditions
have their values in place; each value but null is a placeholder with the next number, and the bound values are the
values in the order they stand. HAVING goes on where WHERE has stopped. -/

namespace FraiseQL.Aggregate.SqlGenerator

open SqlLex WhereGenerator List

/-! ### Pieces of a filter -/

/-- A part of a condition. -/
inductive Part where
  | text (cs : List Char)
  | field
  | value (v : Json)

/-- A condition on what a path leads to. -/
structure Filter where
  path : String
  condition : List Part

/-- A piece of a filter's SQL. -/
inductive FilterPiece where
  | text (cs : List Char)
  | extract (path : String)
  | value (v : Json)

def Part.piece (path : String) : Part → FilterPiece
  | .text cs => .text cs
  | .field => .extract path
  | .value v => .value v

/-- The value a piece binds. -/
def FilterPiece.bound? : FilterPiece → Option Json
  | .value .null => none
  | .value v => some v
  | _ => none

def boundValues (pieces : List FilterPiece) : List Json := pieces.filterMap FilterPiece.bound?

section Text

variable (db : DatabaseType) (jsonbColumn : String)

/-- The text of a piece when the next placeholder is for the value at `n`. -/
def FilterPiece.sql (n : Nat) : FilterPiece → List Char
  | .text cs => cs
  | .extract path => jsonbExtractSql db jsonbColumn path
  | .value .null => lit "NULL"
  | .value _ => placeholder db n

/-- The text of the pieces when the first placeholder is for the value at `n`. -/
def piecesText : Nat → List FilterPiece → List Char
  | _, [] => []
  | n, piece :: pieces => piece.sql db jsonbColumn n ++ piecesText (n + piece.bound?.toList.length) pieces

theorem piecesText_append (n : Nat) (a b : List FilterPiece) :
    piecesText db jsonbColumn n (a ++ b) =
      piecesText db jsonbColumn n a ++ piecesText db jsonbColumn (n + (boundValues a).length) b := by
  induction a generalizing n with
  | nil => rfl
  | cons piece a ih =>
    have hlength : (boundValues (piece :: a)).length = piece.bound?.toList.length + (boundValues a).length := by
      rw [boundValues, filterMap_cons]
      cases piece.bound? with
      | none => simp [boundValues]
      | some v => simp [boundValues, Nat.add_comm]
    rw [cons_append, piecesText, piecesText, ih, hlength, append_assoc, Nat.add_assoc]

theorem boundValues_append (a b : List FilterPiece) : boundValues (a ++ b) = boundValues a ++ boundValues b :=
  filterMap_append

end Text

/-! ### The formula of a clause -/

section Formula

variable (db : DatabaseType) (text : TextLibrary)

/-- A comparison with one value. -/
def compared (operator : List Char) (v : Json) : List Part :=
  [.field, .text (lit " " ++ operator ++ lit " "), .value v]

/-- A comparison with a list of values. -/
def listed (operator : List Char) (items : List Json) : List Part :=
  .field :: .text (lit " " ++ operator ++ lit " (") :: (joined (.text (lit ", ")) (items.map fun v => [.value v]) ++
    [.text (lit ")")])

/-- A comparison with the pattern an operator makes of a text. -/
def likened (operator : WhereOperator) (column : List Part) (like : List Char) (s : String) : List Part :=
  let (pattern, needsEscape) := likePattern operator (s.toList.filter (· ≠ '\x00'))
  column ++ [.text (lit " " ++ like ++ lit " "), .value (.str (String.ofList pattern))] ++
    if needsEscape then [.text (lit " ESCAPE '!'")] else []

/-- The condition of an operator over a dimension; none when the operator does not take the value. -/
def filterOf (operator : WhereOperator) (value : Json) : Option (List Part) :=
  match operator with
  | .isNull => some [.field, .text (lit " IS NULL")]
  | .isIn | .nin => value.asArray?.map (listed (operatorToSql db operator))
  | .contains | .startswith | .endswith => value.asStr?.map (likened operator [.field] (operatorToSql db operator))
  | operator =>
    if isCaseInsensitive operator then
      value.asStr?.map fun s =>
        if db = .postgresql then likened operator [.field] (operatorToSql db operator) s
        else likened operator [.text (lit "UPPER("), .field, .text (lit ")")] (lit "LIKE") (text.toUppercase s)
    else some (compared (operatorToSql db operator) value)

mutual

/-- The formula of a clause over dimensions. -/
def filters : WhereClause → Option (Formula Filter)
  | .field path operator value =>
    (filterOf db text operator value).map fun c => .leaf ⟨text.snakeCase (path.headD ""), c⟩
  | .and clauses => (filtersAll clauses).map .and
  | .or clauses => (filtersAll clauses).map .or
  | .not clause => (filters clause).map .not
  | .nativeField _ _ _ _ => none

def filtersAll : List WhereClause → Option (List (Formula Filter))
  | [] => some []
  | clause :: clauses => do
    let f ← filters clause
    let fs ← filtersAll clauses
    return f :: fs

end

end Formula

mutual

/-- The pieces of a formula's SQL. -/
def filterPieces : Formula Filter → List FilterPiece
  | .leaf f => f.condition.map (Part.piece f.path)
  | .and fs => .text (lit "(") :: joined (.text (lit " AND ")) (filterPiecesAll fs) ++ [.text (lit ")")]
  | .or fs => .text (lit "(") :: joined (.text (lit " OR ")) (filterPiecesAll fs) ++ [.text (lit ")")]
  | .not f => .text (lit "NOT (") :: filterPieces f ++ [.text (lit ")")]

def filterPiecesAll : List (Formula Filter) → List (List FilterPiece)
  | [] => []
  | f :: fs => filterPieces f :: filterPiecesAll fs

end

/-! ### The text of a clause -/

section Emitted

variable (db : DatabaseType) (text : TextLibrary) (jsonbColumn : String)

/-- The text and the bound values after the pieces have been written. -/
def emitted (params : List Json) (pieces : List FilterPiece) :
    List Char × List Json :=
  (piecesText db jsonbColumn params.length pieces, params ++ boundValues pieces)

section

variable (params : List Json)

theorem emitValueParam_eq (v : Json) : emitValueParam db v params = emitted db jsonbColumn params [.value v] := by
  cases v <;> simp [emitValueParam, emitted, piecesText, FilterPiece.sql, boundValues, FilterPiece.bound?]

theorem emitted_append (a b : List FilterPiece) :
    emitted db jsonbColumn params (a ++ b) =
      ((emitted db jsonbColumn params a).1 ++ (emitted db jsonbColumn (emitted db jsonbColumn params a).2 b).1,
        (emitted db jsonbColumn (emitted db jsonbColumn params a).2 b).2) := by
  rw [emitted, emitted, emitted, piecesText_append, boundValues_append, length_append, append_assoc]

theorem emitted_nil : emitted db jsonbColumn params [] = ([], params) := by
  simp [emitted, piecesText, boundValues]

theorem emitted_text (cs : List Char) : emitted db jsonbColumn params [.text cs] = (cs, params) := by
  simp [emitted, piecesText, FilterPiece.sql, boundValues, FilterPiece.bound?]

theorem emitted_extract (path : String) :
    emitted db jsonbColumn params [.extract path] = (jsonbExtractSql db jsonbColumn path, params) := by
  simp [emitted, piecesText, FilterPiece.sql, boundValues, FilterPiece.bound?]

theorem emitted_cons_text (cs : List Char) (pieces : List FilterPiece) :
    emitted db jsonbColumn params (.text cs :: pieces) =
      (cs ++ (emitted db jsonbColumn params pieces).1, (emitted db jsonbColumn params pieces).2) := by
  have happend := emitted_append db jsonbColumn params [.text cs] pieces
  rw [emitted_text] at happend
  exact happend

theorem emitted_cons_extract (path : String) (pieces : List FilterPiece) :
    emitted db jsonbColumn params (.extract path :: pieces) =
      (jsonbExtractSql db jsonbColumn path ++ (emitted db jsonbColumn params pieces).1,
        (emitted db jsonbColumn params pieces).2) := by
  have happend := emitted_append db jsonbColumn params [.extract path] pieces
  rw [emitted_extract] at happend
  exact happend

theorem emitted_wrapped (start stop : List Char) (pieces : List FilterPiece) :
    emitted db jsonbColumn params (.text start :: pieces ++ [.text stop]) =
      (start ++ (emitted db jsonbColumn params pieces).1 ++ stop, (emitted db jsonbColumn params pieces).2) := by
  rw [cons_append, emitted_cons_text, emitted_append, emitted_text, append_assoc]

end

/-- Parts written one after the other. -/
def emitAll : List (List FilterPiece) → List Json → List (List Char) × List Json
  | [], params => ([], params)
  | part :: parts, params =>
    let (sql, params) := emitted db jsonbColumn params part
    let (sqls, params) := emitAll parts params
    (sql :: sqls, params)

theorem emitted_joined (sep : List Char) (parts : List (List FilterPiece)) (params : List Json) :
    emitted db jsonbColumn params (joined (.text sep) parts) =
      (joinText sep (emitAll db jsonbColumn parts params).1, (emitAll db jsonbColumn parts params).2) := by
  induction parts generalizing params with
  | nil => simp [joined, emitted, emitAll, joinText, piecesText, boundValues]
  | cons part parts ih =>
    cases parts with
    | nil => rfl
    | cons next parts =>
      rw [joined_cons_cons, emitted_append, emitted_cons_text, ih]
      simp only [emitAll, joinText, append_assoc]

theorem emitValueParams_eq (items params : List Json) :
    emitValueParams db items params = emitAll db jsonbColumn (items.map fun v => [.value v]) params := by
  induction items generalizing params with
  | nil => rfl
  | cons v items ih =>
    rw [emitValueParams, map_cons, emitAll, emitValueParam_eq db jsonbColumn]
    simp only [ih]

/-! The conditions -/

variable (path : String)

theorem emitted_compared (operator : List Char) (v : Json) (params : List Json) :
    emitted db jsonbColumn params ((compared operator v).map (Part.piece path)) =
      (comparison (jsonbExtractSql db jsonbColumn path) operator (emitValueParam db v params).1,
        (emitValueParam db v params).2) := by
  rw [emitValueParam_eq db jsonbColumn]
  simp only [compared, map_cons, map_nil, Part.piece, emitted_cons_extract, emitted_cons_text, comparison,
    append_assoc]

theorem emitted_listed (operator : List Char) (items params : List Json) :
    emitted db jsonbColumn params ((listed operator items).map (Part.piece path)) =
      (comparison (jsonbExtractSql db jsonbColumn path) operator
        (lit "(" ++ joinText (lit ", ") (emitValueParams db items params).1 ++ lit ")"),
        (emitValueParams db items params).2) := by
  have hjoined : (joined (.text (lit ", ")) (items.map fun v => [.value v])).map (Part.piece path) =
      joined (.text (lit ", ")) (items.map fun v => [.value v]) := by
    rw [joined_map, map_map]
    rfl
  rw [emitValueParams_eq db jsonbColumn]
  simp only [listed, map_cons, map_append, map_nil, hjoined, Part.piece, emitted_cons_extract,
    emitted_cons_text, emitted_append, emitted_joined, emitted_nil, comparison, append_assoc, append_nil]
  rfl

variable (operator : WhereOperator)

theorem emitted_likened (like : List Char) (s : String) (params : List Json)
    {column : List Part} {columnSql : List Char}
    (hcolumn : ∀ pieces, emitted db jsonbColumn params (column.map (Part.piece path) ++ pieces) =
      (columnSql ++ (emitted db jsonbColumn params pieces).1, (emitted db jsonbColumn params pieces).2)) :
    emitted db jsonbColumn params ((likened operator column like s).map (Part.piece path)) =
      (comparison columnSql like ((emitLikePatternParam db operator s params).1 ++
        escapeClause (emitLikePatternParam db operator s params).2.1),
        (emitLikePatternParam db operator s params).2.2) := by
  rw [likened, emitLikePatternParam]
  cases likePattern operator (s.toList.filter (· ≠ '\x00')) with
  | mk pattern needsEscape =>
    cases needsEscape with
    | false =>
      simp only [map_append, map_cons, Part.piece, append_assoc, hcolumn,
        cons_append, nil_append, emitted_cons_text, comparison, escapeClause,
        emitValueParam_eq db jsonbColumn]
      simp
    | true =>
      simp only [map_append, map_cons, Part.piece, append_assoc, hcolumn,
        cons_append, nil_append, emitted_cons_text, comparison, escapeClause,
        emitValueParam_eq db jsonbColumn]
      have happend := emitted_append db jsonbColumn params [.value (.str (String.ofList pattern))]
        [.text (lit " ESCAPE '!'")]
      rw [emitted_text, cons_append, nil_append] at happend
      simp only [if_true, map_cons, map_nil, Part.piece, happend]

variable (value : Json)

variable (params : List Json)

theorem membership_toOption :
    (membership db (jsonbExtractSql db jsonbColumn path) operator value params).toOption =
      (value.asArray?.map (listed (operatorToSql db operator))).map fun c =>
        emitted db jsonbColumn params (c.map (Part.piece path)) := by
  rw [membership]
  cases value.asArray? with
  | none => rfl
  | some items =>
    rw [Option.map_some, Option.map_some, emitted_listed]
    rfl

/-- The field itself as the column of a pattern. -/
theorem emitted_field (pieces : List FilterPiece) :
    emitted db jsonbColumn params ([Part.field].map (Part.piece path) ++ pieces) =
      (jsonbExtractSql db jsonbColumn path ++ (emitted db jsonbColumn params pieces).1,
        (emitted db jsonbColumn params pieces).2) := emitted_cons_extract db jsonbColumn params path pieces

theorem emitted_upper (pieces : List FilterPiece) :
    emitted db jsonbColumn params
        ([Part.text (lit "UPPER("), .field, .text (lit ")")].map (Part.piece path) ++ pieces) =
      (lit "UPPER(" ++ jsonbExtractSql db jsonbColumn path ++ lit ")" ++ (emitted db jsonbColumn params pieces).1,
        (emitted db jsonbColumn params pieces).2) := by
  simp only [map_cons, map_nil, Part.piece, cons_append, nil_append, emitted_cons_text,
    emitted_cons_extract, append_assoc]

theorem patternWhere_toOption :
    (patternWhere db (jsonbExtractSql db jsonbColumn path) operator value params).toOption =
      (value.asStr?.map (likened operator [.field] (operatorToSql db operator))).map fun c =>
        emitted db jsonbColumn params (c.map (Part.piece path)) := by
  rw [patternWhere, requireText]
  cases value.asStr? with
  | none => rfl
  | some s =>
    rw [Option.map_some, Option.map_some, emitted_likened db jsonbColumn path operator _ s params
      (emitted_field db jsonbColumn path params)]
    rfl

theorem ipatternWhere_toOption :
    (ipatternWhere db text (jsonbExtractSql db jsonbColumn path) operator value params).toOption =
      (value.asStr?.map fun s =>
        if db = .postgresql then likened operator [.field] (operatorToSql db operator) s
        else likened operator [.text (lit "UPPER("), .field, .text (lit ")")] (lit "LIKE") (text.toUppercase s)).map
        fun c => emitted db jsonbColumn params (c.map (Part.piece path)) := by
  rw [ipatternWhere, requireText]
  cases value.asStr? with
  | none => rfl
  | some s =>
    show some (caseInsensitiveWhere db text (jsonbExtractSql db jsonbColumn path) operator s params) = _
    rw [Option.map_some, Option.map_some, caseInsensitiveWhere]
    split
    · rw [emitted_likened db jsonbColumn path operator _ s params (emitted_field db jsonbColumn path params)]
    · rw [emitted_likened db jsonbColumn path operator _ _ params (emitted_upper db jsonbColumn path params)]

theorem plainWhere_eq :
    plainWhere db (jsonbExtractSql db jsonbColumn path) operator value params =
      emitted db jsonbColumn params ((compared (operatorToSql db operator) value).map (Part.piece path)) := by
  rw [emitted_compared]
  rfl

theorem jsonbWhere_toOption (field : String) (operator : WhereOperator) (value : Json) (params : List Json) :
    (jsonbWhere db text jsonbColumn field operator value params).toOption =
      (filterOf db text operator value).map fun c =>
        emitted db jsonbColumn params (c.map (Part.piece (text.snakeCase field))) := by
  have hplain := plainWhere_eq db jsonbColumn (text.snakeCase field) operator value params
  cases operator with
  | isNull =>
    simp only [filterOf, Option.map_some, map_cons, map_nil, Part.piece, emitted_cons_extract, emitted_text]
    rfl
  | isIn | nin => exact membership_toOption db jsonbColumn _ _ value params
  | contains | startswith | endswith => exact patternWhere_toOption db jsonbColumn _ _ value params
  | icontains | istartswith | iendswith | ilike | nilike | iregex | niregex =>
    exact ipatternWhere_toOption db text jsonbColumn _ _ value params
  | _ => exact congrArg some hplain

end Emitted

/-! ### Clauses over dimensions -/

section Clauses

variable (metadata : FactTableMetadata)

mutual

/-- Every condition is on one name, which is no column of its own. -/
def OverDimensions : WhereClause → Prop
  | .field path _ _ => ∃ name, path = [name] ∧ metadata.hasFilter name = false
  | .and clauses => OverDimensionsAll clauses
  | .or clauses => OverDimensionsAll clauses
  | .not clause => OverDimensions clause
  | .nativeField _ _ _ _ => False

def OverDimensionsAll : List WhereClause → Prop
  | [] => True
  | clause :: clauses => OverDimensions clause ∧ OverDimensionsAll clauses

end

variable (db : DatabaseType) (text : TextLibrary)

theorem toOption_bind {α β : Type} (x : Except FraiseQLError α) (f : α → Except FraiseQLError β) :
    (x >>= f).toOption = x.toOption.bind fun a => (f a).toOption := by
  cases x <;> rfl

mutual

/-- The text of a clause is that of its formula: its placeholders are numbered in the order of the bound values, from
the first value on that is not bound yet. -/
theorem whereClauseToSql_toOption : ∀ (clause : WhereClause) (params : List Json), OverDimensions metadata clause →
    (whereClauseToSql db text metadata clause params).toOption = (filters db text clause).map fun f =>
      emitted db metadata.dimensions.name params (filterPieces f)
  | .field path operator value, params, hover => by
    obtain ⟨name, rfl, hname⟩ := hover
    rw [whereClauseToSql]
    show (if metadata.hasFilter name then _ else _ : Except FraiseQLError _).toOption = _
    rw [hname, if_neg Bool.false_ne_true]
    show (jsonbWhere db text metadata.dimensions.name name operator value params).toOption = _
    rw [jsonbWhere_toOption, filters, Option.map_map]
    rfl
  | .and clauses, params, hover | .or clauses, params, hover => by
    rw [whereClauseToSql, toOption_bind, whereClausesToSql_toOption clauses params hover, filters, Option.map_map]
    cases filtersAll db text clauses with
    | none => rfl
    | some fs =>
      rw [Option.map_some, Option.map_some, Function.comp_apply, filterPieces, emitted_wrapped, emitted_joined]
      rfl
  | .not clause, params, hover => by
    rw [whereClauseToSql, toOption_bind, whereClauseToSql_toOption clause params hover, filters, Option.map_map]
    cases filters db text clause with
    | none => rfl
    | some f =>
      rw [Option.map_some, Option.map_some, Function.comp_apply, filterPieces, emitted_wrapped]
      rfl
  | .nativeField _ _ _ _, _, hover => hover.elim

theorem whereClausesToSql_toOption : ∀ (clauses : List WhereClause) (params : List Json),
    OverDimensionsAll metadata clauses →
    (whereClausesToSql db text metadata clauses params).toOption = (filtersAll db text clauses).map fun fs =>
      emitAll db metadata.dimensions.name (filterPiecesAll fs) params
  | [], params, _ => rfl
  | clause :: clauses, params, hover => by
    rw [whereClausesToSql, toOption_bind, whereClauseToSql_toOption clause params hover.1, filtersAll]
    cases filters db text clause with
    | none => rfl
    | some f =>
      simp only [Option.map_some, Option.bind_some, toOption_bind,
        whereClausesToSql_toOption clauses (emitted db metadata.dimensions.name params (filterPieces f)).2 hover.2]
      cases filtersAll db text clauses with
      | none => rfl
      | some fs => rfl

end

/-- The pieces of the conditions of HAVING. -/
def havingPieces (conditions : List ValidatedHavingCondition) : List (List FilterPiece) :=
  conditions.map fun condition =>
    [.text (aggregateExpressionToSql db condition.aggregate ++ lit " " ++ havingOperatorSql condition.operator ++
      lit " "), .value condition.value]

theorem havingConditions_eq (jsonbColumn : String) (conditions : List ValidatedHavingCondition) (params : List Json) :
    havingConditions db conditions params = emitAll db jsonbColumn (havingPieces db conditions) params := by
  induction conditions generalizing params with
  | nil => rfl
  | cons condition conditions ih =>
    rw [havingConditions, havingPieces, map_cons, emitAll, emitted_cons_text, emitValueParam_eq db jsonbColumn]
    simp only [ih, havingPieces, comparison, append_assoc]

theorem buildHavingClause_eq (jsonbColumn : String) {conditions : List ValidatedHavingCondition}
    (hconditions : conditions ≠ []) (params : List Json) :
    buildHavingClause db conditions params = emitted db jsonbColumn params
      (.text (lit "HAVING ") :: joined (.text (lit " AND ")) (havingPieces db conditions)) := by
  have hempty : conditions.isEmpty = false := by simpa using hconditions
  rw [buildHavingClause, if_neg (by simp [hempty]), havingConditions_eq db jsonbColumn, emitted_cons_text,
    emitted_joined]

end Clauses

end FraiseQL.Aggregate.SqlGenerator
