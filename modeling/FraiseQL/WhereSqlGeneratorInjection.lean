import FraiseQL.DialectLexing
import FraiseQL.WhereShape
import FraiseQL.WhereSqlGenerator

/-! Strings in the SQL of the wire generator. Values and path segments are embedded in single-quoted literals
with their single quotes doubled, so they cannot change its tokens. A native column goes through the same
escaping but stands between double quotes, which it can therefore close. -/

namespace FraiseQL.WhereSqlGenerator

open SqlLex Dialect Outcome

open WhereClause (SameShape SameShapes)

/-- PostgreSQL with `standard_conforming_strings`. -/
abbrev wireRules : Rules := rules false .postgres

/-! ### Numbers -/

variable {c : Char}

theorem begin_of_isWordChar {r : Rules} (hblank : isBlank c = false) (hword : isWordChar c = true) :
    begin r c = (.word [c], []) := by
  simp [begin, hblank, hword]

theorem isOpChar_of_isWordChar (h : isWordChar c = true) : isOpChar c = false := by
  by_contra hop
  rw [Bool.not_eq_false] at hop
  unfold isOpChar at hop
  split at hop <;> first | (revert h; decide) | cases hop

/-- The modes a printed number is read in. -/
def InNumber (m : Mode) (rest : List Char) : Prop :=
  m = .start ∨ (∃ cs, m = .word cs) ∨ (m = .op ['-'] ∧ rest.head? ≠ some '-')

variable {m : Mode}

theorem InNumber.settled {rest : List Char} (h : InNumber m rest) : settled wireRules m = true := by
  rcases h with rfl | ⟨cs, rfl⟩ | ⟨rfl, _⟩ <;> rfl

variable {cs : List Char}

theorem noDoubleDash_tail (h : noDoubleDash (c :: cs) = true) :
    noDoubleDash cs = true ∧ (c = '-' → cs.head? ≠ some '-') := by
  cases cs with
  | nil => exact ⟨rfl, fun _ => nofun⟩
  | cons d cs =>
    rw [noDoubleDash, Bool.and_eq_true] at h
    refine ⟨h.2, ?_⟩
    rintro rfl hd
    obtain rfl := Option.some.inj hd
    cases h.1

theorem InNumber.step (h : InNumber m (c :: cs)) (hc : isNumberChar c = true) (hdash : c = '-' → cs.head? ≠ some '-') :
    InNumber (step wireRules m c).1 cs := by
  simp only [isNumberChar, Bool.or_eq_true, decide_eq_true_eq] at hc
  have hword : c.isDigit = true ∨ c = 'e' → isBlank c = false ∧ isWordChar c = true := by
    rintro (hdigit | rfl)
    · refine ⟨?_, isWordChar_of_isDigit hdigit⟩
      by_contra hblank
      simp only [isBlank, Bool.not_eq_false, Bool.or_eq_true, beq_iff_eq] at hblank
      rcases hblank with ((rfl | rfl) | rfl) | rfl <;> cases hdigit
    · exact ⟨rfl, rfl⟩
  have hnext : ∀ ts : List Token, c.isDigit = true ∨ c = 'e' → (next wireRules ts c).1 = .word [c] := by
    intro ts hkind
    obtain ⟨hblank, hchar⟩ := hword hkind
    rw [next, begin_of_isWordChar hblank hchar]
  have hcases : (c.isDigit = true ∨ c = 'e') ∨ c = '-' ∨ c = '.' := by tauto
  rcases hcases with hkind | rfl | rfl
  · obtain ⟨_, hchar⟩ := hword hkind
    rcases h with rfl | ⟨w, rfl⟩ | ⟨rfl, _⟩
    · exact .inr (.inl ⟨[c], hnext [] hkind⟩)
    · exact .inr (.inl ⟨w ++ [c], by simp [step, hchar]⟩)
    · refine .inr (.inl ⟨[c], ?_⟩)
      rw [step, stepOp, isOpChar_of_isWordChar hchar]
      exact hnext [.op ['-']] hkind
  · rcases h with rfl | ⟨w, rfl⟩ | ⟨rfl, hhead⟩
    · exact .inr (.inr ⟨rfl, hdash rfl⟩)
    · exact .inr (.inr ⟨rfl, hdash rfl⟩)
    · exact absurd rfl hhead
  · rcases h with rfl | ⟨w, rfl⟩ | ⟨rfl, _⟩ <;> exact .inl rfl

theorem InNumber.run (h : InNumber m cs) (hchars : ∀ c ∈ cs, isNumberChar c = true) (hdash : noDoubleDash cs = true) :
    SqlLex.settled wireRules (SqlLex.run wireRules m cs).1 = true := by
  induction cs generalizing m with
  | nil => exact h.settled
  | cons c cs ih =>
    obtain ⟨hrest, hhead⟩ := noDoubleDash_tail hdash
    exact ih (h.step (hchars c (List.mem_cons_self ..)) hhead)
      (fun d hd => hchars d (List.mem_cons_of_mem _ hd)) hrest

theorem noDoubleDash_cons (h : ∀ d ∈ cs, d.isDigit = true) : noDoubleDash (c :: cs) = true := by
  induction cs generalizing c with
  | nil => rfl
  | cons d cs ih =>
    have hd : (d == '-') = false := by
      rw [beq_eq_false_iff_ne]
      rintro rfl
      have hdigit := h '-' (List.mem_cons_self ..)
      revert hdigit
      decide
    rw [noDoubleDash, hd, Bool.and_false, ih fun e he => h e (List.mem_cons_of_mem _ he)]
    rfl

theorem natText_digits (n : Nat) : ∀ c ∈ (toString n).toList, c.isDigit = true := by
  rw [Nat.toString_eq_ofList_toDigits, String.toList_ofList]
  exact fun c hc => Nat.isDigit_of_mem_toDigits (by decide) (by decide) hc

theorem number_settles (n : JsonNumber) : settlesText wireRules (Json.numberText n).toList = true := by
  have hdigit : ∀ {c : Char}, c.isDigit = true → isNumberChar c = true := by
    intro c hc
    simp [isNumberChar, hc]
  cases n with
  | float t => exact InNumber.run (.inl rfl) t.valid.2.1 t.valid.2.2
  | int n =>
    obtain ⟨value, _⟩ := n
    cases value with
    | ofNat m =>
      have hdigits := natText_digits m
      refine InNumber.run (.inl rfl) (fun c hc => hdigit (hdigits c hc)) ?_
      cases hcs : (toString m).toList with
      | nil => exact congrArg noDoubleDash hcs
      | cons c cs =>
        rw [hcs] at hdigits
        exact (congrArg noDoubleDash hcs).trans
          (noDoubleDash_cons fun d hd => hdigits d (List.mem_cons_of_mem _ hd))
    | negSucc m =>
      have hdigits := natText_digits (m + 1)
      have htext : (toString (Int.negSucc m)).toList = '-' :: (toString (m + 1)).toList := by
        rw [Int.toString_eq_repr, Nat.toString_eq_repr]
        exact String.toList_append
      show settled wireRules (run wireRules .start (toString (Int.negSucc m)).toList).1 = true
      rw [htext]
      refine InNumber.run (.inl rfl) ?_ (noDoubleDash_cons hdigits)
      intro c hc
      rcases List.mem_cons.mp hc with rfl | hc
      · rfl
      · exact hdigit (hdigits c hc)

/-! ### Pieces -/

def pathTokens : List String → List Token
  | [] => [.word (lit "data")]
  | [field] => [.word (lit "data"), .op (lit "->>"), .quoted .single field.toList]
  | path => [.word (lit "data"), .op (lit "#>"),
      .quoted .single ('\x7b' :: (String.intercalate "," path.dropLast).toList ++ ['\x7d']), .op (lit "->>"),
      .quoted .single (path.getLastD "").toList]

def Piece.tokens : Piece → List Token
  | .text cs => lex wireRules cs
  | .path segments => pathTokens segments
  | .literal content => [.quoted .single content]
  | .column name => [.quoted .double (doubled .single name.toList)]

def Piece.chunk : Piece → Chunk
  | .text cs => Chunk.ofText wireRules cs
  | piece => ⟨piece.render, piece.tokens, false, false⟩

theorem map_chunk_chars (sql : Sql) : (sql.map Piece.chunk).flatMap Chunk.chars = renderSql sql := by
  have hchars : ∀ piece : Piece, piece.chunk.chars = piece.render := by
    intro piece
    cases piece <;> rfl
  simp only [List.flatMap_map, hchars]
  rfl

theorem map_chunk_tokens (sql : Sql) :
    (sql.map Piece.chunk).flatMap Chunk.tokens = sql.flatMap Piece.tokens := by
  have htokens : ∀ piece : Piece, piece.chunk.tokens = piece.tokens := by
    intro piece
    cases piece <;> rfl
  simp only [List.flatMap_map, htokens]

theorem jsonPathText_lexes (path : List String) : Lexes wireRules (jsonPathText path) (pathTokens path) false := by
  have hdata : BeforeArrow wireRules (.word (lit "data")) := ⟨rfl, rfl⟩
  have hstart : run wireRules .start (lit "data") = (.word (lit "data"), []) := rfl
  rcases path with _ | ⟨field, _ | ⟨second, rest⟩⟩
  · exact ⟨rfl, rfl, by rintro ⟨⟩⟩
  · have hrun : run wireRules .start (jsonPathText [field]) =
        (.closing .single field.toList, [.word (lit "data"), .op (lit "->>")]) := by
      have htext : jsonPathText [field] = lit "data" ++ (lit "->>" ++ quote .single field.toList) := rfl
      rw [htext, run_append, hstart, segment_run hdata (.inr rfl)]
      rfl
    refine ⟨by rw [hrun]; rfl, ?_, by rintro ⟨⟩⟩
    rw [lex, hrun]
    rfl
  · let path := field :: second :: rest
    let nested := '\x7b' :: (String.intercalate "," path.dropLast).toList ++ ['\x7d']
    have hnested : run wireRules .start (lit "data#>" ++ quote .single nested) =
        (.closing .single nested, [.word (lit "data"), .op (lit "#>")]) := by
      have hops : run wireRules .start (lit "data#>") = (.op (lit "#>"), [.word (lit "data")]) := rfl
      have hopen : step wireRules (.op (lit "#>")) Quote.single.opener =
          (.quoted .single [], [.op (lit "#>")]) := rfl
      have hplain : Quote.single ∈ wireRules.escapes → '\\' ∉ nested := by simp [rules]
      rw [run_append, hops, run_quote nested hplain hopen]
      rfl
    have hclosing : BeforeArrow wireRules (.closing .single nested) := ⟨rfl, rfl⟩
    have hrun : run wireRules .start (jsonPathText path) =
        (.closing .single (path.getLastD "").toList,
          [.word (lit "data"), .op (lit "#>"), .quoted .single nested, .op (lit "->>")]) := by
      have htext : jsonPathText path = (lit "data#>" ++ quote .single nested) ++
          (lit "->>" ++ quote .single (path.getLastD "").toList) := rfl
      rw [htext, run_append, hnested, segment_run hclosing (.inr rfl)]
      rfl
    refine ⟨by rw [hrun]; rfl, ?_, by rintro ⟨⟩⟩
    rw [lex, hrun]
    rfl

/-- A column name that cannot close its double quotes. -/
def PlainColumn (name : String) : Prop := '"' ∉ name.toList

theorem column_lexes {name : String} (h : PlainColumn name) :
    Lexes wireRules (Piece.render (.column name)) [.quoted .double (doubled .single name.toList)] false := by
  have hnone : '"' ∉ doubled .single name.toList := by
    intro hmem
    obtain ⟨c, hc, hmem⟩ := List.mem_flatMap.mp hmem
    have heq : '"' = c := by
      split_ifs at hmem <;> simpa using hmem
    exact h (heq ▸ hc)
  have hself : ∀ cs : List Char, '"' ∉ cs → doubled .double cs = cs := by
    intro cs
    induction cs with
    | nil => exact fun _ => rfl
    | cons c cs ih =>
      intro hcs
      rw [List.mem_cons, not_or] at hcs
      have hne : c ≠ Quote.double.closer := fun heq => hcs.1 heq.symm
      rw [doubled_cons_of_ne hne, ih hcs.2]
  have hrender : Piece.render (.column name) = quote .double (doubled .single name.toList) := by
    rw [quote, hself _ hnone]
    rfl
  rw [hrender]
  exact quoteIdentifier_lexes false .postgres _

/-- The piece is read as it is meant. -/
def Piece.Plain : Piece → Prop
  | .text cs => settlesText wireRules cs = true
  | .column name => PlainColumn name
  | _ => True

variable {piece : Piece}

theorem Piece.Plain.valid (h : piece.Plain) : piece.chunk.Valid wireRules := by
  cases piece with
  | text cs => exact Chunk.ofText_valid h
  | path segments => exact ⟨jsonPathText_lexes segments, nofun⟩
  | literal content => exact ⟨literal_lexes nofun, nofun⟩
  | column name => exact ⟨column_lexes h, nofun⟩

def Lays (sql : Sql) : Prop := Laid wireRules (sql.map Piece.chunk)

variable {sql : Sql}

theorem Lays.lex_eq (h : Lays sql) : lex wireRules (renderSql sql) = sql.flatMap Piece.tokens := by
  rw [← map_chunk_chars sql, h.lexes.tokens, map_chunk_tokens]

/-- One piece that is no separator by itself. -/
theorem lays_piece (h : piece.Plain) : Lays [piece] := by
  refine ⟨?_, ?_⟩
  · intro c hc
    obtain rfl := List.mem_singleton.mp hc
    exact h.valid
  · cases piece <;> rfl

theorem Lays.wrap {start stop : List Char} (hstart : (settlesText wireRules start && endsFresh wireRules start) = true)
    (hstop : separates wireRules stop = true) (h : Lays sql) : Lays (.text start :: sql ++ [.text stop]) := by
  rw [Lays, List.cons_append, List.map_cons, List.map_append]
  exact Laid.wrap hstart hstop h

theorem Lays.prefixed {start : List Char} (hstart : (settlesText wireRules start && endsFresh wireRules start) = true)
    (h : Lays sql) : Lays (.text start :: sql) := by
  rw [Bool.and_eq_true] at hstart
  refine ⟨?_, ?_⟩
  · rw [List.map_cons, List.forall_mem_cons]
    exact ⟨Chunk.ofText_valid hstart.1, h.valid⟩
  · show (true && linked (endsFresh wireRules start) (sql.map Piece.chunk)) = true
    rw [hstart.2, h.linked]
    rfl

variable {parts : List Sql}

theorem Lays.join {sep : List Char} (hsep : separates wireRules sep = true)
    (h : ∀ part ∈ parts, Lays part) : Lays (joinSql sep parts) := by
  rw [Lays, joinSql, joined_map]
  apply Laid.join hsep
  intro part hpart
  obtain ⟨sql, hsql, rfl⟩ := List.mem_map.mp hpart
  exact h sql hsql

/-- A piece followed by text. -/
theorem lays_then (hpiece : piece.Plain)
    (hcs : separates wireRules cs = true) (h : Lays sql) : Lays (piece :: .text cs :: sql) := by
  have hjoined : Lays (joinSql cs [[piece], sql]) := by
    apply Lays.join hcs
    intro part hpart
    simp only [List.mem_cons, List.not_mem_nil, or_false] at hpart
    rcases hpart with rfl | rfl
    · exact lays_piece hpiece
    · exact h
  exact hjoined

/-- A piece with text after it. -/
theorem lays_pair (hpiece : piece.Plain)
    (hcs : (settlesText wireRules cs && opens wireRules cs) = true) : Lays [piece, .text cs] := by
  rw [Bool.and_eq_true] at hcs
  constructor
  · intro c hc
    simp only [List.map_cons, List.map_nil, List.mem_cons, List.not_mem_nil, or_false] at hc
    rcases hc with rfl | rfl
    · exact hpiece.valid
    · exact Chunk.ofText_valid hcs.1
  · show (true && ((_ || opens wireRules cs) && true)) = true
    rw [hcs.2, Bool.or_true]
    rfl

/-! ### Values and clauses -/

variable {value : Json} {op : WhereOperator}

theorem scalarToSql_lays (h : scalarToSql value op = .ok sql) : Lays sql := by
  cases value with
  | null =>
    cases h
    exact lays_piece rfl
  | bool b =>
    cases h
    cases b <;> exact lays_piece rfl
  | num n =>
    cases h
    exact lays_piece (number_settles n)
  | str s =>
    simp only [scalarToSql, map_eq_ok] at h
    obtain ⟨content, _, rfl⟩ := h
    exact lays_piece trivial
  | _ => cases h

theorem itemsToSql_lays {items : List Json} (h : itemsToSql items = .ok parts) : ∀ part ∈ parts, Lays part := by
  induction items generalizing parts with
  | nil =>
    cases h
    exact nofun
  | cons item items ih =>
    simp only [itemsToSql, bind_eq_ok, pure_eq_ok] at h
    obtain ⟨part, hpart, rest, hrest, rfl⟩ := h
    intro p hp
    rcases List.mem_cons.mp hp with rfl | hp
    · exact scalarToSql_lays hpart
    · exact ih hrest p hp

theorem jsonToSql_lays (h : jsonToSql value = .ok sql) : Lays sql := by
  rw [jsonToSql] at h
  split_ifs at h
  cases h
  exact lays_pair trivial rfl

theorem valueToSql_cases (h : valueToSql value op = .ok sql) :
    (∃ items parts, value = .arr items ∧ (op = .isIn ∨ op = .nin) ∧ itemsToSql items = .ok parts ∧
      sql = .text (lit "ARRAY[") :: joinSql (lit ", ") parts ++ [.text (lit "]")]) ∨
    (∃ items, value = .arr items ∧ (op = .arrayContains ∨ op = .arrayContainedBy ∨ op = .arrayOverlaps) ∧
      jsonToSql value = .ok sql) ∨
    ((∀ items, value ≠ .arr items) ∧ scalarToSql value op = .ok sql) := by
  cases value with
  | arr items =>
    cases op with
    | isIn | nin =>
      simp only [valueToSql, map_eq_ok] at h
      obtain ⟨parts, hparts, rfl⟩ := h
      exact .inl ⟨items, parts, rfl, by simp, hparts, rfl⟩
    | arrayContains | arrayContainedBy | arrayOverlaps =>
      exact .inr (.inl ⟨items, rfl, by simp, h⟩)
    | _ => cases h
  | _ => exact .inr (.inr ⟨by rintro _ ⟨⟩, h⟩)

theorem valueToSql_lays (h : valueToSql value op = .ok sql) : Lays sql := by
  obtain ⟨_, parts, _, _, hparts, rfl⟩ | ⟨_, _, _, hjson⟩ | ⟨_, hscalar⟩ := valueToSql_cases h
  · exact Lays.wrap rfl rfl (Lays.join rfl (itemsToSql_lays hparts))
  · exact jsonToSql_lays hjson
  · exact scalarToSql_lays hscalar

theorem operatorToSql_separates (h : operatorToSql op = .ok cs) : separates wireRules (' ' :: cs ++ [' ']) = true := by
  cases op <;> cases h <;> rfl

theorem comparison_lays {subject : Piece}
    (hsubject : subject.Plain) (h : comparison subject op value = .ok sql) : Lays sql := by
  simp only [comparison, bind_eq_ok, pure_eq_ok] at h
  obtain ⟨cs, hcs, valueSql, hvalue, rfl⟩ := h
  exact lays_then hsubject (operatorToSql_separates hcs) (valueToSql_lays hvalue)

variable {path : List String}

theorem generateFieldPredicate_lays (h : generateFieldPredicate path op value = .ok sql) : Lays sql := by
  simp only [generateFieldPredicate, buildJsonPath, bind_eq_ok, pure_eq_ok] at h
  obtain ⟨jsonPath, ⟨_, _, rfl⟩, h⟩ := h
  have hpath : Piece.Plain (.path path) := trivial
  split_ifs at h
  · cases h
    exact lays_pair hpath rfl
  · cases h
    exact lays_pair hpath rfl
  · exact comparison_lays hpath h

mutual

/-- The native columns of a clause. -/
def columns : WhereClause → List String
  | .field _ _ _ => []
  | .and clauses => columnsAll clauses
  | .or clauses => columnsAll clauses
  | .not clause => columns clause
  | .nativeField column _ _ _ => [column]

def columnsAll : List WhereClause → List String
  | [] => []
  | clause :: clauses => columns clause ++ columnsAll clauses

end

mutual

/-- The pieces of a clause are read one by one when its columns cannot close their quotes. -/
theorem toPieces_lays : ∀ (clause : WhereClause) {sql : Sql}, toPieces clause = .ok sql →
    (∀ name ∈ columns clause, PlainColumn name) → Lays sql
  | .field path op value, sql, h, _ => generateFieldPredicate_lays h
  | .nativeField column pgCast op value, sql, h, hplain => by
    simp only [toPieces, bind_eq_ok] at h
    obtain ⟨_, _, h⟩ := h
    have hcolumn : Piece.Plain (.column column) := hplain column (List.mem_singleton_self column)
    exact comparison_lays hcolumn h
  | .and clauses, sql, h, hplain | .or clauses, sql, h, hplain => by
    rw [toPieces] at h
    split_ifs at h
    · cases h
      exact Laid.text rfl
    · obtain ⟨parts, hparts, rfl⟩ := map_eq_ok.mp h
      exact Lays.wrap rfl rfl (Lays.join rfl (toPiecesAll_lays clauses hparts hplain))
  | .not clause, sql, h, hplain => by
    rw [toPieces] at h
    obtain ⟨part, hpart, rfl⟩ := map_eq_ok.mp h
    exact Lays.wrap rfl rfl (toPieces_lays clause hpart hplain)

theorem toPiecesAll_lays : ∀ (clauses : List WhereClause) {parts : List Sql}, toPiecesAll clauses = .ok parts →
    (∀ name ∈ columnsAll clauses, PlainColumn name) → ∀ part ∈ parts, Lays part
  | [], parts, h, _ => by
    cases h
    exact nofun
  | clause :: clauses, parts, h, hplain => by
    simp only [toPiecesAll, bind_eq_ok, pure_eq_ok] at h
    obtain ⟨part, hpart, rest, hrest, rfl⟩ := h
    intro p hp
    rcases List.mem_cons.mp hp with rfl | hp
    · exact toPieces_lays clause hpart fun name hname => hplain name (List.mem_append_left _ hname)
    · exact toPiecesAll_lays clauses hrest (fun name hname => hplain name (List.mem_append_right _ hname)) p hp

end

/-! ### Pieces of one shape -/

/-- The tokens of some SQL up to the contents of literals and quoted identifiers. -/
def erasedTokens (sql : Sql) : List Token := (sql.flatMap Piece.tokens).map Token.erase

theorem erasedTokens_append (a c : Sql) : erasedTokens (a ++ c) = erasedTokens a ++ erasedTokens c := by
  rw [erasedTokens, List.flatMap_append, List.map_append]
  rfl

theorem erasedTokens_cons (piece : Piece) (sql : Sql) :
    erasedTokens (piece :: sql) = piece.tokens.map Token.erase ++ erasedTokens sql := by
  rw [erasedTokens, List.flatMap_cons, List.map_append]
  rfl

theorem pathTokens_erase {path' : List String} (h : path.length = path'.length) :
    (pathTokens path).map Token.erase = (pathTokens path').map Token.erase := by
  match path, path', h with
  | [], [], _ => rfl
  | [_], [_], _ => rfl
  | _ :: _ :: _, _ :: _ :: _, _ => rfl

variable {value' : Json} {op' : WhereOperator} {sql' : Sql}

theorem scalarToSql_erase (hvalue : value.shape = value'.shape) (h : scalarToSql value op = .ok sql)
    (h' : scalarToSql value' op' = .ok sql') : erasedTokens sql = erasedTokens sql' := by
  cases value with
  | str s =>
    cases value' with
    | str s' =>
      simp only [scalarToSql, map_eq_ok] at h h'
      obtain ⟨_, _, rfl⟩ := h
      obtain ⟨_, _, rfl⟩ := h'
      rfl
    | _ => cases hvalue
  | null | bool _ | num _ =>
    cases value' with
    | null | bool _ | num _ =>
      cases hvalue <;> (cases h; cases h'; rfl)
    | _ => cases hvalue
  | _ => cases h

theorem itemsToSql_erase {items items' : List Json} {parts' : List Sql}
    (hitems : Json.shapeItems items = Json.shapeItems items') (h : itemsToSql items = .ok parts)
    (h' : itemsToSql items' = .ok parts') : parts.map erasedTokens = parts'.map erasedTokens := by
  induction items generalizing items' parts parts' with
  | nil =>
    cases items' with
    | nil =>
      cases h
      cases h'
      rfl
    | cons item' items' => cases hitems
  | cons item items ih =>
    cases items' with
    | nil => cases hitems
    | cons item' items' =>
      obtain ⟨hitem, hrest⟩ := List.cons.inj hitems
      simp only [itemsToSql, bind_eq_ok, pure_eq_ok] at h h'
      obtain ⟨part, hpart, rest, hparts, rfl⟩ := h
      obtain ⟨part', hpart', rest', hparts', rfl⟩ := h'
      rw [List.map_cons, List.map_cons, scalarToSql_erase hitem hpart hpart', ih hrest hparts hparts']

theorem erasedTokens_wrap {start stop : List Char} (h : erasedTokens sql = erasedTokens sql') :
    erasedTokens (.text start :: sql ++ [.text stop]) = erasedTokens (.text start :: sql' ++ [.text stop]) := by
  rw [List.cons_append, List.cons_append, erasedTokens_cons, erasedTokens_cons, erasedTokens_append,
    erasedTokens_append, h]

theorem erasedTokens_join {sep : List Char} {parts' : List Sql} (h : parts.map erasedTokens = parts'.map erasedTokens) :
    erasedTokens (joinSql sep parts) = erasedTokens (joinSql sep parts') :=
  joined_congr erasedTokens_append h

theorem valueToSql_erase (hvalue : value.shape = value'.shape) (h : valueToSql value op = .ok sql)
    (h' : valueToSql value' op = .ok sql') : erasedTokens sql = erasedTokens sql' := by
  obtain ⟨items, parts, rfl, hop, hparts, rfl⟩ | ⟨items, rfl, hop, hjson⟩ | ⟨harr, hscalar⟩ := valueToSql_cases h
  · obtain ⟨items', parts', rfl, _, hparts', rfl⟩ | ⟨_, _, hop', _⟩ | ⟨harr', _⟩ := valueToSql_cases h'
    · exact erasedTokens_wrap (erasedTokens_join (itemsToSql_erase (Json.arr.inj hvalue) hparts hparts'))
    · exfalso
      rcases hop with rfl | rfl <;> rcases hop' with hop' | hop' | hop' <;> cases hop'
    · cases value' with
      | arr items' => exact absurd rfl (harr' items')
      | _ => cases hvalue
  · obtain ⟨_, _, _, hop', _, _⟩ | ⟨items', rfl, _, hjson'⟩ | ⟨harr', _⟩ := valueToSql_cases h'
    · exfalso
      rcases hop' with rfl | rfl <;> rcases hop with hop | hop | hop <;> cases hop
    · rw [jsonToSql] at hjson hjson'
      split_ifs at hjson hjson'
      cases hjson
      cases hjson'
      rfl
    · cases value' with
      | arr items' => exact absurd rfl (harr' items')
      | _ => cases hvalue
  · obtain ⟨items', _, rfl, _, _, _⟩ | ⟨items', rfl, _, _⟩ | ⟨_, hscalar'⟩ := valueToSql_cases h'
    · cases value with
      | arr items => exact absurd rfl (harr items)
      | _ => cases hvalue
    · cases value with
      | arr items => exact absurd rfl (harr items)
      | _ => cases hvalue
    · exact scalarToSql_erase hvalue hscalar hscalar'

/-- An operator with SQL is its own shape. -/
theorem operator_eq_of_shape {cs' : List Char} (hop : op.shape = op'.shape)
    (h : operatorToSql op = .ok cs) (h' : operatorToSql op' = .ok cs') : op = op' := by
  have hself : ∀ (o : WhereOperator) (cs : List Char), operatorToSql o = .ok cs → o.shape = o := by
    intro o cs ho
    cases o with
    | extended _ => cases ho
    | _ => rfl
  rw [← hself op cs h, ← hself op' cs' h', hop]

theorem comparison_erase {subject subject' : Piece}
    (hsubject : subject.tokens.map Token.erase = subject'.tokens.map Token.erase)
    (hop : op.shape = op'.shape) (hvalue : value.shape = value'.shape)
    (h : comparison subject op value = .ok sql) (h' : comparison subject' op' value' = .ok sql') :
    erasedTokens sql = erasedTokens sql' := by
  simp only [comparison, bind_eq_ok, pure_eq_ok] at h h'
  obtain ⟨cs, hcs, valueSql, hv, rfl⟩ := h
  obtain ⟨cs', hcs', valueSql', hv', rfl⟩ := h'
  obtain rfl := operator_eq_of_shape hop hcs hcs'
  obtain rfl : cs = cs' := Except.ok.inj (hcs.symm.trans hcs')
  rw [erasedTokens_cons, erasedTokens_cons, erasedTokens_cons, erasedTokens_cons, hsubject,
    valueToSql_erase hvalue hv hv']

theorem generateFieldPredicate_erase {path' : List String}
    (hlength : path.length = path'.length) (hop : op.shape = op'.shape)
    (hvalue : value.shape = value'.shape) (h : generateFieldPredicate path op value = .ok sql)
    (h' : generateFieldPredicate path' op' value' = .ok sql') : erasedTokens sql = erasedTokens sql' := by
  simp only [generateFieldPredicate, buildJsonPath, bind_eq_ok, pure_eq_ok] at h h'
  obtain ⟨_, ⟨_, _, rfl⟩, h⟩ := h
  obtain ⟨_, ⟨_, _, rfl⟩, h'⟩ := h'
  have hnull : op = .isNull ↔ op' = .isNull := by
    constructor
    · rintro rfl
      cases op' with
      | isNull => rfl
      | _ => cases hop
    · rintro rfl
      cases op with
      | isNull => rfl
      | _ => cases hop
  have hbool : value.asBool? = value'.asBool? := by
    rw [← Json.asBool?_shape, hvalue, Json.asBool?_shape]
  have hpath : (Piece.path path).tokens.map Token.erase = (Piece.path path').tokens.map Token.erase :=
    pathTokens_erase hlength
  by_cases hop' : op' = .isNull
  · rw [if_pos (hnull.mpr hop')] at h
    rw [if_pos hop', ← hbool] at h'
    cases h
    cases h'
    rw [erasedTokens_cons (.path path), erasedTokens_cons (.path path'), hpath]
  · rw [if_neg fun heq => hop' (hnull.mp heq)] at h
    rw [if_neg hop'] at h'
    exact comparison_erase hpath hop hvalue h h'

/-- Paths are treated alike here. -/
abbrev noIndex : List String → Bool := fun _ => false

mutual

theorem toPieces_erase : ∀ (clause clause' : WhereClause) {sql sql' : Sql}, SameShape noIndex clause clause' →
    toPieces clause = .ok sql → toPieces clause' = .ok sql' → erasedTokens sql = erasedTokens sql'
  | .field path op value, clause', sql, sql', hshape, h, h' => by
    cases clause' with
    | field path' op' value' =>
      obtain ⟨hlength, _, hop, hvalue⟩ := hshape
      exact generateFieldPredicate_erase hlength hop hvalue h h'
    | _ => cases hshape
  | .nativeField column pgCast op value, clause', sql, sql', hshape, h, h' => by
    cases clause' with
    | nativeField column' pgCast' op' value' =>
      obtain ⟨_, hop, hvalue⟩ := hshape
      simp only [toPieces, bind_eq_ok] at h h'
      obtain ⟨_, _, h⟩ := h
      obtain ⟨_, _, h'⟩ := h'
      have hcolumn : (Piece.column column).tokens.map Token.erase =
          (Piece.column column').tokens.map Token.erase := rfl
      exact comparison_erase hcolumn hop hvalue h h'
    | _ => cases hshape
  | .and clauses, clause', sql, sql', hshape, h, h' => by
    cases clause' with
    | and clauses' =>
      obtain ⟨hempty, hall⟩ := toPiecesAll_erase clauses clauses' hshape
      rw [toPieces] at h h'
      rw [hempty] at h
      split_ifs at h h'
      · cases h
        cases h'
        rfl
      · obtain ⟨parts, hparts, rfl⟩ := map_eq_ok.mp h
        obtain ⟨parts', hparts', rfl⟩ := map_eq_ok.mp h'
        exact erasedTokens_wrap (erasedTokens_join (hall hparts hparts'))
    | _ => cases hshape
  | .or clauses, clause', sql, sql', hshape, h, h' => by
    cases clause' with
    | or clauses' =>
      obtain ⟨hempty, hall⟩ := toPiecesAll_erase clauses clauses' hshape
      rw [toPieces] at h h'
      rw [hempty] at h
      split_ifs at h h'
      · cases h
        cases h'
        rfl
      · obtain ⟨parts, hparts, rfl⟩ := map_eq_ok.mp h
        obtain ⟨parts', hparts', rfl⟩ := map_eq_ok.mp h'
        exact erasedTokens_wrap (erasedTokens_join (hall hparts hparts'))
    | _ => cases hshape
  | .not clause, clause', sql, sql', hshape, h, h' => by
    cases clause' with
    | not clause' =>
      rw [toPieces] at h h'
      obtain ⟨part, hpart, rfl⟩ := map_eq_ok.mp h
      obtain ⟨part', hpart', rfl⟩ := map_eq_ok.mp h'
      exact erasedTokens_wrap (toPieces_erase clause clause' hshape hpart hpart')
    | _ => cases hshape

theorem toPiecesAll_erase : ∀ (clauses clauses' : List WhereClause), SameShapes noIndex clauses clauses' →
    clauses.isEmpty = clauses'.isEmpty ∧ ∀ {parts parts' : List Sql}, toPiecesAll clauses = .ok parts →
      toPiecesAll clauses' = .ok parts' → parts.map erasedTokens = parts'.map erasedTokens
  | [], clauses', hshape => by
    cases clauses' with
    | nil =>
      refine ⟨rfl, ?_⟩
      intro parts parts' h h'
      cases h
      cases h'
      rfl
    | cons clause' clauses' => cases hshape
  | clause :: clauses, clauses', hshape => by
    cases clauses' with
    | nil => cases hshape
    | cons clause' clauses' =>
      refine ⟨rfl, ?_⟩
      intro parts parts' h h'
      simp only [toPiecesAll, bind_eq_ok, pure_eq_ok] at h h'
      obtain ⟨part, hpart, rest, hrest, rfl⟩ := h
      obtain ⟨part', hpart', rest', hrest', rfl⟩ := h'
      rw [List.map_cons, List.map_cons, toPieces_erase clause clause' hshape.1 hpart hpart',
        (toPiecesAll_erase clauses clauses' hshape.2).2 hrest hrest']

end

variable {clause : WhereClause}

/-- Clauses of one shape whose columns cannot close their quotes have the same skeleton. -/
theorem skeleton_eq_of_plain {clause' : WhereClause} {sql sql' : String}
    (hshape : SameShape noIndex clause clause') (h : toSql clause = .ok sql) (h' : toSql clause' = .ok sql')
    (hplain : ∀ name ∈ columns clause, PlainColumn name)
    (hplain' : ∀ name ∈ columns clause', PlainColumn name) :
    skeleton wireRules sql.toList = skeleton wireRules sql'.toList := by
  obtain ⟨pieces, hpieces, rfl⟩ := map_eq_ok.mp h
  obtain ⟨pieces', hpieces', rfl⟩ := map_eq_ok.mp h'
  rw [String.toList_ofList, String.toList_ofList, skeleton, skeleton,
    (toPieces_lays clause hpieces hplain).lex_eq, (toPieces_lays clause' hpieces' hplain').lex_eq]
  exact toPieces_erase clause clause' hshape hpieces hpieces'

/-! ### Other columns in the same clause -/

mutual

/-- The clause with other columns. -/
def rename (σ : String → String) : WhereClause → WhereClause
  | .field path op value => .field path op value
  | .and clauses => .and (renameAll σ clauses)
  | .or clauses => .or (renameAll σ clauses)
  | .not clause => .not (rename σ clause)
  | .nativeField column pgCast op value => .nativeField (σ column) pgCast op value

def renameAll (σ : String → String) : List WhereClause → List WhereClause
  | [] => []
  | clause :: clauses => rename σ clause :: renameAll σ clauses

end

def Piece.rename (σ : String → String) : Piece → Piece
  | .column name => .column (σ name)
  | piece => piece

section Rename

variable {σ : String → String}

variable {sql : Sql}

theorem rename_of_no_column (h : ∀ name, Piece.column name ∉ sql) : sql.map (Piece.rename σ) = sql := by
  conv_rhs => rw [← List.map_id sql]
  apply List.map_congr_left
  intro piece hpiece
  cases piece with
  | column name => exact absurd hpiece (h name)
  | _ => rfl

variable {value : Json} {op : WhereOperator}

theorem scalarToSql_no_column (h : scalarToSql value op = .ok sql) (name : String) : Piece.column name ∉ sql := by
  cases value with
  | str s =>
    simp only [scalarToSql, map_eq_ok] at h
    obtain ⟨_, _, rfl⟩ := h
    simp
  | null | bool _ | num _ =>
    cases h
    simp
  | _ => cases h

theorem mem_joined_text {sep : List Char} {parts : List Sql} {name : String}
    (h : Piece.column name ∈ joinSql sep parts) : ∃ part ∈ parts, Piece.column name ∈ part := by
  induction parts with
  | nil => cases h
  | cons part parts ih =>
    cases parts with
    | nil => exact ⟨part, List.mem_cons_self .., h⟩
    | cons next parts =>
      rw [joinSql, joined_cons_cons] at h
      rcases List.mem_append.mp h with h | h
      · exact ⟨part, List.mem_cons_self .., h⟩
      · rcases List.mem_cons.mp h with h | h
        · cases h
        · obtain ⟨part', hmem, h⟩ := ih h
          exact ⟨part', List.mem_cons_of_mem _ hmem, h⟩

theorem itemsToSql_no_column {items : List Json} {parts : List Sql} (h : itemsToSql items = .ok parts)
    (name : String) : ∀ part ∈ parts, Piece.column name ∉ part := by
  induction items generalizing parts with
  | nil =>
    cases h
    exact nofun
  | cons item items ih =>
    simp only [itemsToSql, bind_eq_ok, pure_eq_ok] at h
    obtain ⟨part, hpart, rest, hrest, rfl⟩ := h
    intro p hp
    rcases List.mem_cons.mp hp with rfl | hp
    · exact scalarToSql_no_column hpart name
    · exact ih hrest p hp

theorem valueToSql_no_column (h : valueToSql value op = .ok sql) (name : String) : Piece.column name ∉ sql := by
  obtain ⟨_, parts, _, _, hparts, rfl⟩ | ⟨_, _, _, hjson⟩ | ⟨_, hscalar⟩ := valueToSql_cases h
  · intro hmem
    simp only [List.cons_append, List.mem_cons, List.mem_append, List.not_mem_nil, or_false, reduceCtorEq,
      false_or] at hmem
    obtain ⟨part, hpart, hmem⟩ := mem_joined_text hmem
    exact itemsToSql_no_column hparts name part hpart hmem
  · rw [jsonToSql] at hjson
    split_ifs at hjson
    cases hjson
    simp
  · exact scalarToSql_no_column hscalar name

/-- A short name passes the size check. -/
def Short (σ : String → String) : Prop := ∀ name, ∃ cs, escapeSqlString (σ name) = .ok cs

theorem comparison_rename {subject : Piece} (h : comparison subject op value = .ok sql) :
    comparison (subject.rename σ) op value = .ok (sql.map (Piece.rename σ)) := by
  simp only [comparison, bind_eq_ok, pure_eq_ok] at h ⊢
  obtain ⟨cs, hcs, valueSql, hvalue, rfl⟩ := h
  refine ⟨cs, hcs, valueSql, hvalue, ?_⟩
  rw [List.map_cons, List.map_cons, rename_of_no_column (valueToSql_no_column hvalue)]
  rfl

theorem generateFieldPredicate_rename {path : List String}
    (h : generateFieldPredicate path op value = .ok sql) : sql.map (Piece.rename σ) = sql := by
  simp only [generateFieldPredicate, buildJsonPath, bind_eq_ok, pure_eq_ok] at h
  obtain ⟨_, ⟨_, _, rfl⟩, h⟩ := h
  split_ifs at h
  · cases h
    rfl
  · cases h
    rfl
  · have hrename := comparison_rename (σ := σ) h
    exact Except.ok.inj (hrename.symm.trans h)

theorem renameAll_isEmpty (clauses : List WhereClause) : (renameAll σ clauses).isEmpty = clauses.isEmpty := by
  cases clauses <;> rfl

mutual

/-- Short columns change the columns of the SQL only. -/
theorem toPieces_rename (hshort : Short σ) : ∀ (clause : WhereClause) {sql : Sql}, toPieces clause = .ok sql →
    toPieces (rename σ clause) = .ok (sql.map (Piece.rename σ))
  | .field path op value, sql, h => by
    rw [generateFieldPredicate_rename h]
    exact h
  | .nativeField column pgCast op value, sql, h => by
    simp only [rename, toPieces, bind_eq_ok] at h ⊢
    obtain ⟨_, _, h⟩ := h
    obtain ⟨cs, hcs⟩ := hshort column
    exact ⟨cs, hcs, comparison_rename h⟩
  | .and clauses, sql, h | .or clauses, sql, h => by
    rw [rename, toPieces, renameAll_isEmpty]
    rw [toPieces] at h
    split_ifs at h ⊢
    · cases h
      rfl
    · obtain ⟨parts, hparts, rfl⟩ := map_eq_ok.mp h
      refine map_eq_ok.mpr ⟨_, toPiecesAll_rename hshort clauses hparts, ?_⟩
      simp only [joinSql, List.map_append, List.map_cons, List.map_nil, joined_map, Piece.rename]
  | .not clause, sql, h => by
    rw [toPieces] at h
    obtain ⟨part, hpart, rfl⟩ := map_eq_ok.mp h
    refine map_eq_ok.mpr ⟨_, toPieces_rename hshort clause hpart, ?_⟩
    simp only [List.map_append, List.map_cons, List.map_nil, Piece.rename]

theorem toPiecesAll_rename (hshort : Short σ) : ∀ (clauses : List WhereClause) {parts : List Sql},
    toPiecesAll clauses = .ok parts →
      toPiecesAll (renameAll σ clauses) = .ok (parts.map (List.map (Piece.rename σ)))
  | [], parts, h => by
    cases h
    rfl
  | clause :: clauses, parts, h => by
    simp only [renameAll, toPiecesAll, bind_eq_ok, pure_eq_ok] at h ⊢
    obtain ⟨part, hpart, rest, hrest, rfl⟩ := h
    exact ⟨_, toPieces_rename hshort clause hpart, _, toPiecesAll_rename hshort clauses hrest, rfl⟩

end

mutual

theorem rename_sameShape : ∀ clause : WhereClause, SameShape noIndex clause (rename σ clause)
  | .field _ _ _ => ⟨rfl, rfl, rfl, rfl⟩
  | .and clauses => renameAll_sameShapes clauses
  | .or clauses => renameAll_sameShapes clauses
  | .not clause => rename_sameShape clause
  | .nativeField _ _ _ _ => ⟨rfl, rfl, rfl⟩

theorem renameAll_sameShapes : ∀ clauses : List WhereClause, SameShapes noIndex clauses (renameAll σ clauses)
  | [] => trivial
  | clause :: clauses => ⟨rename_sameShape clause, renameAll_sameShapes clauses⟩

end

mutual

theorem columns_rename : ∀ clause : WhereClause, columns (rename σ clause) = (columns clause).map σ
  | .field _ _ _ => rfl
  | .and clauses => columnsAll_rename clauses
  | .or clauses => columnsAll_rename clauses
  | .not clause => columns_rename clause
  | .nativeField _ _ _ _ => rfl

theorem columnsAll_rename : ∀ clauses : List WhereClause,
    columnsAll (renameAll σ clauses) = (columnsAll clauses).map σ
  | [] => rfl
  | clause :: clauses => by
    rw [renameAll, columnsAll, columnsAll, List.map_append, columns_rename clause, columnsAll_rename clauses]

end

mutual

/-- The only new strings are the columns. -/
theorem mem_strings_rename : ∀ (clause : WhereClause) {s : String}, s ∈ (rename σ clause).strings →
    s ∈ clause.strings ∨ ∃ name, s = σ name
  | .field _ _ _, _, h => .inl h
  | .and clauses, _, h => mem_stringsAll_rename clauses h
  | .or clauses, _, h => mem_stringsAll_rename clauses h
  | .not clause, _, h => mem_strings_rename clause h
  | .nativeField column _ _ _, _, h => by
    rcases List.mem_cons.mp h with rfl | h
    · exact .inr ⟨column, rfl⟩
    · exact .inl (List.mem_cons_of_mem _ h)

theorem mem_stringsAll_rename : ∀ (clauses : List WhereClause) {s : String},
    s ∈ WhereClause.stringsAll (renameAll σ clauses) →
      s ∈ WhereClause.stringsAll clauses ∨ ∃ name, s = σ name
  | [], _, h => .inl h
  | clause :: clauses, _, h => by
    rcases List.mem_append.mp h with h | h
    · exact (mem_strings_rename clause h).imp_left (List.mem_append_left _)
    · exact (mem_stringsAll_rename clauses h).imp_left (List.mem_append_right _)

end

end Rename

mutual

/-- Each native column stands in the SQL. -/
theorem column_mem : ∀ (clause : WhereClause) {sql : Sql}, toPieces clause = .ok sql →
    ∀ name ∈ columns clause, Piece.column name ∈ sql
  | .field _ _ _, _, _ => nofun
  | .nativeField column _ op value, sql, h => by
    simp only [toPieces, comparison, bind_eq_ok, pure_eq_ok] at h
    obtain ⟨_, _, _, _, _, _, rfl⟩ := h
    intro name hname
    obtain rfl := List.mem_singleton.mp hname
    exact List.mem_cons_self ..
  | .and clauses, sql, h | .or clauses, sql, h => by
    rw [toPieces] at h
    split_ifs at h with hempty
    · rw [List.isEmpty_iff.mp hempty]
      exact nofun
    · obtain ⟨parts, hparts, rfl⟩ := map_eq_ok.mp h
      intro name hname
      exact List.mem_cons_of_mem _ (List.mem_append_left _ (mem_joined (columns_mem clauses hparts name hname)))
  | .not clause, sql, h => by
    obtain ⟨part, hpart, rfl⟩ := map_eq_ok.mp h
    intro name hname
    exact List.mem_cons_of_mem _ (List.mem_append_left _ (column_mem clause hpart name hname))

theorem columns_mem : ∀ (clauses : List WhereClause) {parts : List Sql}, toPiecesAll clauses = .ok parts →
    ∀ name ∈ columnsAll clauses, ∃ part ∈ parts, Piece.column name ∈ part
  | [], _, _ => nofun
  | clause :: clauses, parts, h => by
    simp only [toPiecesAll, bind_eq_ok, pure_eq_ok] at h
    obtain ⟨part, hpart, rest, hrest, rfl⟩ := h
    intro name hname
    rcases List.mem_append.mp hname with hname | hname
    · exact ⟨part, List.mem_cons_self .., column_mem clause hpart name hname⟩
    · obtain ⟨part', hmem, hcolumn⟩ := columns_mem clauses hrest name hname
      exact ⟨part', List.mem_cons_of_mem _ hmem, hcolumn⟩

end

mutual

theorem columns_sameShape : ∀ (clause clause' : WhereClause), SameShape noIndex clause clause' →
    (columns clause).length = (columns clause').length
  | .field _ _ _, clause', h => by
    cases clause' with
    | field _ _ _ => rfl
    | _ => cases h
  | .and clauses, clause', h => by
    cases clause' with
    | and clauses' => exact columnsAll_sameShapes clauses clauses' h
    | _ => cases h
  | .or clauses, clause', h => by
    cases clause' with
    | or clauses' => exact columnsAll_sameShapes clauses clauses' h
    | _ => cases h
  | .not clause, clause', h => by
    cases clause' with
    | not clause' => exact columns_sameShape clause clause' h
    | _ => cases h
  | .nativeField _ _ _ _, clause', h => by
    cases clause' with
    | nativeField _ _ _ _ => rfl
    | _ => cases h

theorem columnsAll_sameShapes : ∀ (clauses clauses' : List WhereClause), SameShapes noIndex clauses clauses' →
    (columnsAll clauses).length = (columnsAll clauses').length
  | [], clauses', h => by
    cases clauses' with
    | nil => rfl
    | cons _ _ => cases h
  | clause :: clauses, clauses', h => by
    cases clauses' with
    | nil => cases h
    | cons clause' clauses' =>
      rw [columnsAll, columnsAll, List.length_append, List.length_append,
        columns_sameShape clause clause' h.1, columnsAll_sameShapes clauses clauses' h.2]

end

/-! ### A column that closes its quotes -/

/-- A column with a double quote and a character after it. -/
def payload (c : Char) : String := String.ofList ['a', '"', c]

/-- A character that is a token of its own. -/
def Stands (c : Char) : Prop := c = ',' ∨ c = ';'

theorem Stands.escape (h : Stands c) : escapeSqlString (payload c) = .ok ['a', '"', c] := by
  rcases h with rfl | rfl <;> rfl

theorem Stands.lex_column (h : Stands c) (rest : List Char) :
    lex wireRules (Piece.render (.column (payload c)) ++ rest) =
      .quoted .double ['a'] :: .symbol c :: lex wireRules ('"' :: rest) := by
  have hlexes : Lexes wireRules ['"', 'a', '"', c] [.quoted .double ['a'], .symbol c] true := by
    rcases h with rfl | rfl <;> exact ⟨rfl, rfl, fun _ => rfl⟩
  have htext : Piece.render (.column (payload c)) ++ rest = ['"', 'a', '"', c] ++ '"' :: rest := by
    rcases h with rfl | rfl <;> rfl
  rw [htext, hlexes.lex_append]
  rfl

theorem Lays.before {before after : Sql} (h : Lays (before ++ piece :: after)) (hopens : piece.chunk.opens = false) :
    Lexes wireRules (renderSql before) (before.flatMap Piece.tokens) true := by
  rw [Lays, List.map_append, List.map_cons] at h
  have hlexes := h.before hopens
  rwa [map_chunk_chars, map_chunk_tokens] at hlexes

/-- The tokens up to and after the first column, when every column is a payload. -/
theorem lex_payload (h : toPieces clause = .ok sql) (hcolumns : columns clause ≠ []) : ∃ ts, ∀ c, Stands c → ∃ us,
      lex wireRules (renderSql (sql.map (Piece.rename fun _ => payload c))) = ts ++ .symbol c :: us := by
  let isColumn : Piece → Bool := fun piece => match piece with
    | .column _ => true
    | _ => false
  have hfirst : ∃ piece ∈ sql, isColumn piece = true := by
    obtain ⟨name, hname⟩ := List.exists_mem_of_ne_nil _ hcolumns
    exact ⟨_, column_mem clause h name hname, rfl⟩
  obtain ⟨before, piece, after, rfl, hpiece, hbefore⟩ := first_of_mem hfirst
  obtain ⟨name, rfl⟩ : ∃ name, piece = .column name := by
    cases piece with
    | column name => exact ⟨name, rfl⟩
    | _ => cases hpiece
  have hkept : ∀ σ, before.map (Piece.rename σ) = before := by
    intro σ
    apply rename_of_no_column
    intro name hmem
    cases hbefore _ hmem
  -- with harmless columns, the text before the first one is seen to end between two tokens
  have hshort : Short fun _ => "a" := fun _ => ⟨_, rfl⟩
  have hsafe := toPieces_rename hshort clause h
  have hlays := toPieces_lays _ hsafe (by
    intro name hname
    rw [columns_rename, List.mem_map] at hname
    obtain ⟨_, _, rfl⟩ := hname
    show '"' ∉ "a".toList
    decide +kernel)
  rw [List.map_append, hkept, List.map_cons, Piece.rename] at hlays
  have hlexes := hlays.before rfl
  refine ⟨before.flatMap Piece.tokens ++ [.quoted .double ['a']], ?_⟩
  intro c hc
  let rest := renderSql (after.map (Piece.rename fun _ => payload c))
  have htext : renderSql ((before ++ .column name :: after).map (Piece.rename fun _ => payload c)) =
      renderSql before ++ (Piece.render (.column (payload c)) ++ rest) := by
    rw [List.map_append, hkept, List.map_cons, Piece.rename, renderSql, List.flatMap_append, List.flatMap_cons]
    rfl
  refine ⟨lex wireRules ('"' :: rest), ?_⟩
  rw [htext, hlexes.lex_append, hc.lex_column, List.append_assoc]
  rfl

/-! ### Injection safety -/

/-- No string of the clause has a NUL. -/
def NulFree (clause : WhereClause) : Prop := ∀ s ∈ clause.strings, '\x00' ∉ s.toList

theorem nulFree_payload (h : NulFree clause) (hc : Stands c) : NulFree (rename (fun _ => payload c) clause) := by
  intro s hs
  rcases mem_strings_rename clause hs with hs | ⟨_, rfl⟩
  · exact h s hs
  · rcases hc with rfl | rfl
    · show '\x00' ∉ ['a', '"', ',']
      decide
    · show '\x00' ∉ ['a', '"', ';']
      decide

/-- Whatever strings without NUL a clause of this shape has, its SQL has the same tokens up to the contents of
literals and quoted identifiers. -/
def InjectionSafe (clause : WhereClause) : Prop :=
  ∀ clause₁ clause₂ sql₁ sql₂, SameShape noIndex clause clause₁ → SameShape noIndex clause clause₂ →
    NulFree clause₁ → NulFree clause₂ → toSql clause₁ = .ok sql₁ → toSql clause₂ = .ok sql₂ →
    skeleton wireRules sql₁.toList = skeleton wireRules sql₂.toList

/-- The wire generator is injection safe on exactly the shapes without a native column. -/
theorem wire_injectionSafe_iff {clause : WhereClause} {sql : String} (hnul : NulFree clause)
    (h : toSql clause = .ok sql) : InjectionSafe clause ↔ columns clause = [] := by
  constructor
  · intro hsafe
    by_contra hcolumns
    obtain ⟨pieces, hpieces, rfl⟩ := map_eq_ok.mp h
    obtain ⟨ts, hts⟩ := lex_payload hpieces hcolumns
    have hsql : ∀ c, Stands c → toSql (rename (fun _ => payload c) clause) =
        .ok (String.ofList (renderSql (pieces.map (Piece.rename fun _ => payload c)))) := by
      intro c hc
      exact map_eq_ok.mpr ⟨_, toPieces_rename (fun _ => ⟨_, hc.escape⟩) clause hpieces, rfl⟩
    have hcomma : Stands ',' := .inl rfl
    have hsemicolon : Stands ';' := .inr rfl
    have heq := hsafe _ _ _ _ (rename_sameShape clause) (rename_sameShape clause)
      (nulFree_payload hnul hcomma) (nulFree_payload hnul hsemicolon) (hsql ',' hcomma)
      (hsql ';' hsemicolon)
    obtain ⟨us, hus⟩ := hts ',' hcomma
    obtain ⟨vs, hvs⟩ := hts ';' hsemicolon
    rw [String.toList_ofList, String.toList_ofList, skeleton, skeleton, hus, hvs, List.map_append,
      List.map_append, List.append_cancel_left_eq, List.map_cons, List.map_cons] at heq
    cases (List.cons.inj heq).1
  · intro hcolumns clause₁ clause₂ sql₁ sql₂ hshape₁ hshape₂ _ _ h₁ h₂
    have hplain : ∀ clause', SameShape noIndex clause clause' → ∀ name ∈ columns clause', PlainColumn name := by
      intro clause' hshape name hname
      have hlength := columns_sameShape clause clause' hshape
      rw [hcolumns] at hlength
      rw [List.length_eq_zero_iff.mp hlength.symm] at hname
      cases hname
    have hself : ∀ name ∈ columns clause, PlainColumn name := by
      rw [hcolumns]
      exact nofun
    calc skeleton wireRules sql₁.toList
        = skeleton wireRules sql.toList :=
          (skeleton_eq_of_plain hshape₁ h h₁ hself (hplain clause₁ hshape₁)).symm
      _ = skeleton wireRules sql₂.toList := skeleton_eq_of_plain hshape₂ h h₂ hself (hplain clause₂ hshape₂)

/-- Paths, string values and lists. -/
theorem wire_fields_safe :
    NulFree (.or [.field ["address", "city"] .icontains (.str "o'clock"),
      .not (.field ["tags"] .isIn (.arr [.str "a", .bool true]))]) ∧
    (∃ sql, toSql (.or [.field ["address", "city"] .icontains (.str "o'clock"),
      .not (.field ["tags"] .isIn (.arr [.str "a", .bool true]))]) = .ok sql) ∧
    InjectionSafe (.or [.field ["address", "city"] .icontains (.str "o'clock"),
      .not (.field ["tags"] .isIn (.arr [.str "a", .bool true]))]) := by
  have hnul : NulFree (.or [.field ["address", "city"] .icontains (.str "o'clock"),
      .not (.field ["tags"] .isIn (.arr [.str "a", .bool true]))]) := by
    unfold NulFree
    decide +kernel
  exact ⟨hnul, ⟨_, rfl⟩, (wire_injectionSafe_iff hnul rfl).mpr rfl⟩

/-- A column with a double quote ends its identifier early. -/
theorem wire_column_unsafe : ¬InjectionSafe (.nativeField "id" .uuid .eq (.str "x")) := by
  intro hsafe
  have hnul : ∀ column, '\x00' ∉ column.toList → NulFree (.nativeField column .uuid .eq (.str "x")) := by
    intro column hcolumn s hs
    rcases List.mem_cons.mp hs with rfl | hs
    · exact hcolumn
    · obtain rfl := List.mem_singleton.mp hs
      decide +kernel
  have heq := hsafe (.nativeField "id" .uuid .eq (.str "x"))
    (.nativeField "id\" = id OR 1=1 -- " .uuid .eq (.str "x")) _ _ ⟨rfl, rfl, rfl⟩ ⟨rfl, rfl, rfl⟩
    (hnul _ (by decide +kernel)) (hnul _ (by decide +kernel)) rfl rfl
  rw [String.toList_ofList, String.toList_ofList] at heq
  revert heq
  decide +kernel

end FraiseQL.WhereSqlGenerator
