import Mathlib.Algebra.Order.BigOperators.Group.List
import Mathlib.Algebra.Order.Group.Nat
import Mathlib.Data.List.Forall2
import FraiseQL.WhereGeneratorAlignment
import FraiseQL.WhereShape

/-! Strings cannot change the structure of the generated SQL. Two clauses of one shape are rendered by the
same templates with the same placeholders, so their tokens differ in the contents of literals and quoted
identifiers only. The exception is MySQL in its default mode, where a backslash in a path escapes the closing
quote that the generator doubled. -/

namespace FraiseQL.WhereGenerator

open SqlLex Dialect WhereClause Outcome List Except Json

/-! ### Conditions of one shape -/

section Shape

variable {value : Json} {d : Dialect} {values : List Json} {t : Template}

theorem equality_shape (op : Template) (value : Json) (d : Dialect) :
    equality op value.shape d = equality op value d := by
  cases value <;> rfl

theorem requireStr_shape {name s : String} (h : requireStr value name = .ok s) :
    requireStr value.shape name = .ok "" := by
  cases value with
  | str _ => rfl
  | _ => cases h

theorem requireArray_shape {message : String} {items : List Json}
    (h : requireArray value message = .ok items) :
    requireArray value.shape message = .ok (shapeItems items) := by
  cases value with
  | arr _ =>
    cases h
    rfl
  | _ => cases h

theorem patternMatch_shape {name : String} {like : Template → Template → Dialect → Template}
    {parts : List Template} (h : patternMatch name like parts value d = .ok (values, t)) :
    ∃ values', patternMatch name like parts value.shape d = .ok (values', t) := by
  simp only [patternMatch, bind_eq_ok, pure_eq_ok, Prod.mk.injEq] at h ⊢
  obtain ⟨s, hs, _, rfl⟩ := h
  exact ⟨_, "", requireStr_shape hs, rfl, rfl⟩

variable {negate : Bool}

theorem regexMatch_sql {caseInsensitive : Bool} (h : regexMatch caseInsensitive negate value d = .ok (values, t)) :
    regexSql lhs p caseInsensitive negate d = .ok t := by
  rw [regexMatch] at h
  split at h
  · simp only [bind_eq_ok, pure_eq_ok, Prod.mk.injEq] at h
    obtain ⟨_, _, _, hsql, _, rfl⟩ := h
    exact hsql
  · simp only [bind_eq_ok, pure_eq_ok, Prod.mk.injEq] at h
    obtain ⟨_, _, _, hsql, _, rfl⟩ := h
    exact hsql

theorem regexMatch_shape {caseInsensitive : Bool} (h : regexMatch caseInsensitive negate value d = .ok (values, t)) :
    ∃ values', regexMatch caseInsensitive negate value.shape d = .ok (values', t) := by
  have hsql := regexMatch_sql h
  refine ⟨[value.shape], ?_⟩
  rw [regexMatch]
  cases value with
  | str s =>
    have hvalid : validateRegexPattern "" = .ok () := rfl
    show (validateRegexPattern "" >>= fun _ => regexSql lhs p caseInsensitive negate d >>= _) = _
    rw [hvalid, hsql]
    rfl
  | _ =>
    show (regexSql lhs p caseInsensitive negate d >>= _) = _
    rw [hsql]
    rfl

theorem binary_shape {sql : Dialect → Except FraiseQLError Template}
    (h : binary sql value d = .ok (values, t)) : ∃ values', binary sql value.shape d = .ok (values', t) := by
  simp only [binary, map_eq_ok, Prod.mk.injEq] at h ⊢
  obtain ⟨_, hsql, _, rfl⟩ := h
  exact ⟨_, _, hsql, rfl, rfl⟩

theorem membership_shape (h : membership negate value d = .ok (values, t)) :
    ∃ values', membership negate value.shape d = .ok (values', t) := by
  simp only [membership, bind_eq_ok] at h ⊢
  obtain ⟨items, hitems, h⟩ := h
  refine ⟨shapeItems items, shapeItems items, requireArray_shape hitems, ?_⟩
  cases items with
  | nil =>
    cases h
    rfl
  | cons item items =>
    cases h
    rw [shapeItems_length]
    rfl

theorem overItems_shape {notArray empty : String} {cast : Template}
    {sql : List Template → Dialect → Except FraiseQLError Template}
    (h : overItems notArray empty cast sql value d = .ok (values, t)) :
    ∃ values', overItems notArray empty cast sql value.shape d = .ok (values', t) := by
  simp only [overItems, bind_eq_ok] at h ⊢
  obtain ⟨items, hitems, h⟩ := h
  refine ⟨shapeItems items, shapeItems items, requireArray_shape hitems, ?_⟩
  cases items with
  | nil => cases h
  | cons item items =>
    simp only [isEmpty_cons, Bool.false_eq_true, if_false, bind_eq_ok, pure_eq_ok,
      Prod.mk.injEq] at h
    obtain ⟨t', hsql, _, rfl⟩ := h
    rw [shapeItems_length, hsql]
    rfl

theorem generateExtendedSql_shape {op : ExtendedOperator} (h : generateExtendedSql op d = .ok (values, t)) :
    ∃ values', generateExtendedSql op.shape d = .ok (values', t) := by
  cases d with
  | postgres =>
    cases op with
    | emailDomainIn domains =>
      cases h
      refine ⟨(domains.map fun _ => "").map .str, ?_⟩
      show ok _ = _
      rw [length_map]
    | other display => cases h
    | _ =>
      cases h
      exact ⟨_, rfl⟩
  | _ => cases h

/-- The template depends on the shape only. -/
theorem conditionOf_shape {op : WhereOperator} (h : conditionOf op value d = .ok (values, t)) :
    ∃ values', conditionOf op.shape value.shape d = .ok (values', t) := by
  cases op with
  | eq | neq =>
    cases h
    exact ⟨_, by rw [← equality_shape]; rfl⟩
  | isNull =>
    cases h
    exact ⟨[], by rw [← asBool?_shape]; rfl⟩
  | gt | gte | lt | lte | like | ilike | nlike | nilike | lenEq | lenNeq | lenGt | lenGte | lenLt | lenLte =>
    cases h
    exact ⟨_, rfl⟩
  | isIn | nin => exact membership_shape h
  | contains | icontains | startswith | istartswith | endswith | iendswith => exact patternMatch_shape h
  | regex | iregex | nregex | niregex => exact regexMatch_shape h
  | isIPv4 | isIPv6 | isPrivate | isPublic | isLoopback => exact ⟨_, h⟩
  | matchesAnyLquery | lca => exact overItems_shape h
  | extended op => exact generateExtendedSql_shape h
  | _ => exact binary_shape h

theorem bindCount_shape (op : WhereOperator) (value : Json) :
    bindCount op.shape value.shape = bindCount op value := by
  cases op with
  | isIn | nin | matchesAnyLquery | lca => exact asArray_length_shape value
  | extended op =>
    cases op with
    | emailDomainIn domains => exact length_map ..
    | _ => rfl
  | _ => rfl

theorem isExtended_shape (op : WhereOperator) : isExtended op.shape = isExtended op := by
  cases op <;> rfl

end Shape

/-! ### Tokens of one shape -/

section Tokens

variable {g : Generator} {b : Bool}

/-- The tokens of some SQL up to the contents of literals and quoted identifiers. -/
def erasedTokens (g : Generator) (b : Bool) (sql : Sql) : List Token :=
  (sql.flatMap (Piece.tokens g b)).map Token.erase

theorem erasedTokens_append (a c : Sql) :
    erasedTokens g b (a ++ c) = erasedTokens g b a ++ erasedTokens g b c := by
  rw [erasedTokens, flatMap_append, map_append]
  rfl

variable {path path' : List String}

theorem postgresPathTokens_erase (h : path.length = path'.length) :
    (postgresPathTokens path).map Token.erase = (postgresPathTokens path').map Token.erase := by
  induction path generalizing path' with
  | nil =>
    obtain rfl := length_eq_zero_iff.mp h.symm
    rfl
  | cons segment path ih =>
    cases path' with
    | nil => cases h
    | cons segment' path' =>
      have hrest := ih (Nat.succ.inj h)
      cases path with
      | nil =>
        obtain rfl := length_eq_zero_iff.mp (Nat.succ.inj h).symm
        rfl
      | cons next path =>
        cases path' with
        | nil => cases h
        | cons next' path' =>
          simp only [postgresPathTokens, map_cons, Token.erase] at hrest ⊢
          rw [hrest]

theorem jsonExtractTokens_erase (h : path.length = path'.length) (d : Dialect) :
    (jsonExtractTokens b path d).map Token.erase = (jsonExtractTokens b path' d).map Token.erase := by
  cases d with
  | postgres => exact congrArg (Token.word (lit "data") :: ·) (postgresPathTokens_erase h)
  | _ =>
    rw [jsonExtractTokens, jsonExtractTokens, aroundPath, aroundPath, map_append, map_append]
    rfl

theorem subjectTokens_erase (hlength : path.length = path'.length)
    (hindexes : g.indexes path = g.indexes path') : (subjectTokens g b (.field path)).map Token.erase =
      (subjectTokens g b (.field path')).map Token.erase := by
  rw [subjectTokens, subjectTokens, hindexes]
  split_ifs
  · rfl
  · exact jsonExtractTokens_erase hlength g.dialect

/-- Conditions that differ in the contents of their subjects and values only. -/
structure Alike (g : Generator) (b : Bool) (c c' : Condition) : Prop where
  template : c.template = c'.template
  numbers : c.bound.map Prod.fst = c'.bound.map Prod.fst
  subject : (subjectTokens g b c.subject).map Token.erase = (subjectTokens g b c'.subject).map Token.erase

variable {c c' : Condition}

theorem Alike.erasedTokens_eq (h : Alike g b c c') : erasedTokens g b c.sql = erasedTokens g b c'.sql := by
  have hfrag : ∀ f, ((c.piece f).tokens g b).map Token.erase = ((c'.piece f).tokens g b).map Token.erase := by
    intro f
    cases f with
    | text cs => rfl
    | hole h' =>
      cases h' with
      | field => exact h.subject
      | param i =>
        have hnumber : (c.bound[i]?).map Prod.fst = (c'.bound[i]?).map Prod.fst := by
          rw [← getElem?_map, ← getElem?_map, h.numbers]
        rw [Condition.piece, Condition.piece]
        cases hc : c.bound[i]? with
        | none =>
          rw [hc] at hnumber
          rw [Option.map_eq_none_iff.mp hnumber.symm]
        | some bound =>
          rw [hc] at hnumber
          obtain ⟨bound', hbound', heq⟩ := Option.map_eq_some_iff.mp hnumber.symm
          rw [hbound']
          show [Token.placeholder _] = [Token.placeholder _]
          rw [heq]
  rw [erasedTokens, erasedTokens, Condition.sql, Condition.sql, flatMap_map, flatMap_map,
    map_flatMap, map_flatMap, h.template]
  simp only [hfrag]

/-- The parts of one shape are joined to the same tokens. -/
theorem erasedTokens_join {sep : List Char} {parts parts' : List Sql}
    (h : parts.map (erasedTokens g b) = parts'.map (erasedTokens g b)) :
    erasedTokens g b (joinSql sep parts) = erasedTokens g b (joinSql sep parts') :=
  joined_congr erasedTokens_append h

theorem erasedTokens_wrap {start stop : List Char} {sql sql' : Sql}
    (h : erasedTokens g b sql = erasedTokens g b sql') :
    erasedTokens g b (.text start :: sql ++ [.text stop]) =
      erasedTokens g b (.text start :: sql' ++ [.text stop]) := by
  have hsplit : ∀ sql : Sql, Piece.text start :: sql ++ [Piece.text stop] =
      [.text start] ++ (sql ++ [.text stop]) := fun _ => rfl
  rw [hsplit, hsplit, erasedTokens_append, erasedTokens_append, erasedTokens_append, erasedTokens_append, h]

/-- States from which the same numbers are given. -/
def SameCount (s s' : GenState) : Prop := s.counter = s'.counter ∧ s.params.length = s'.params.length

variable {s₁ s₁' s₂ s₂' : GenState}

theorem Binds.sameCount {kinds : List Bool} {bound bound' : List (Nat × Json)}
    (h₁ : Binds kinds s₁ s₁' bound) (h₂ : Binds kinds s₂ s₂' bound') (hs : SameCount s₁ s₂) :
    bound.map Prod.fst = bound'.map Prod.fst ∧ SameCount s₁' s₂' := by
  have hnumbers : bound.map Prod.fst = bound'.map Prod.fst := by
    rw [h₁.numbers, h₂.numbers, hs.1, hs.2]
  have hlength := congrArg List.length hnumbers
  rw [length_map, length_map] at hlength
  refine ⟨hnumbers, ?_, ?_⟩
  · rw [h₁.counter, h₂.counter, hs.1]
  · rw [h₁.params, h₂.params, length_append, length_append, hs.2, length_map, length_map,
      hlength]

theorem visitField_alike {op op' : WhereOperator} {value value' : Json} {c c' : Condition}
    (hshape : SameShape g.indexes (.field path op value) (.field path' op' value'))
    (h₁ : visitField g path op value s₁ = .ok (c, s₁')) (h₂ : visitField g path' op' value' s₂ = .ok (c', s₂'))
    (hs : SameCount s₁ s₂) : Alike g b c c' ∧ SameCount s₁' s₂' := by
  obtain ⟨hlength, hindexes, hop, hvalue⟩ := hshape
  have hbinds₁ := visitField_binds h₁
  have hbinds₂ := visitField_binds h₂
  rw [← bindCount_shape, ← isExtended_shape, hop, hvalue, bindCount_shape, isExtended_shape] at hbinds₁
  obtain ⟨hnumbers, hcount⟩ := hbinds₁.sameCount hbinds₂ hs
  obtain ⟨values, t, hcond, rfl, _⟩ := visitField_eq_ok h₁
  obtain ⟨values', t', hcond', rfl, _⟩ := visitField_eq_ok h₂
  have htemplate : t = t' := by
    obtain ⟨_, ht⟩ := conditionOf_shape hcond
    obtain ⟨_, ht'⟩ := conditionOf_shape hcond'
    rw [hop, hvalue, ht'] at ht
    cases ht
    rfl
  exact ⟨⟨htemplate, hnumbers, subjectTokens_erase hlength hindexes⟩, hcount⟩

theorem visitNativeField_alike {column column' : String} {pgCast pgCast' : PgCast} {op op' : WhereOperator}
    {value value' : Json}
    (hshape : SameShape g.indexes (.nativeField column pgCast op value) (.nativeField column' pgCast' op' value'))
    (h₁ : visitNativeField g column pgCast op value s₁ = .ok (c, s₁'))
    (h₂ : visitNativeField g column' pgCast' op' value' s₂ = .ok (c', s₂')) (hs : SameCount s₁ s₂) :
    Alike g b c c' ∧ SameCount s₁' s₂' := by
  obtain ⟨rfl, hop, _⟩ := hshape
  have hnumbers : [s₁.counter + 1] = [s₂.counter + 1] := by rw [hs.1]
  have hcount : SameCount (pushParam s₁ value).2 (pushParam s₂ value').2 :=
    ⟨congrArg (· + 1) hs.1, by
      show (s₁.params ++ [value]).length = (s₂.params ++ [value']).length
      rw [length_append, length_append, hs.2]
      rfl⟩
  cases op with
  | eq =>
    cases op' with
    | eq =>
      cases h₁
      cases h₂
      exact ⟨⟨rfl, hnumbers, rfl⟩, hcount⟩
    | neq => cases hop
    | _ => cases h₂
  | neq =>
    cases op' with
    | neq =>
      cases h₁
      cases h₂
      exact ⟨⟨rfl, hnumbers, rfl⟩, hcount⟩
    | eq => cases hop
    | _ => cases h₂
  | _ => cases h₁

mutual

/-- Two clauses of one shape have the same tokens up to contents. -/
theorem conditions_erasedTokens : ∀ (clause clause' : WhereClause) {s₁ s₁' s₂ s₂' : GenState}
    {f f' : Formula Condition}, SameShape g.indexes clause clause' →
      conditions g clause s₁ = .ok (f, s₁') → conditions g clause' s₂ = .ok (f', s₂') → SameCount s₁ s₂ →
      erasedTokens g b (layout g.dialect f) = erasedTokens g b (layout g.dialect f') ∧ SameCount s₁' s₂'
  | .field path op value, clause', s₁, s₁', s₂, s₂', f, f', hshape, h₁, h₂, hs => by
    cases clause' with
    | field path' op' value' =>
      simp only [conditions, map_eq_ok, Prod.mk.injEq] at h₁ h₂
      obtain ⟨⟨c, _⟩, hc, rfl, rfl⟩ := h₁
      obtain ⟨⟨c', _⟩, hc', rfl, rfl⟩ := h₂
      obtain ⟨halike, hcount⟩ := visitField_alike (b := b) hshape hc hc' hs
      exact ⟨halike.erasedTokens_eq, hcount⟩
    | _ => cases hshape
  | .nativeField column pgCast op value, clause', s₁, s₁', s₂, s₂', f, f', hshape, h₁, h₂, hs => by
    cases clause' with
    | nativeField column' pgCast' op' value' =>
      simp only [conditions, map_eq_ok, Prod.mk.injEq] at h₁ h₂
      obtain ⟨⟨c, _⟩, hc, rfl, rfl⟩ := h₁
      obtain ⟨⟨c', _⟩, hc', rfl, rfl⟩ := h₂
      obtain ⟨halike, hcount⟩ := visitNativeField_alike (b := b) hshape hc hc' hs
      exact ⟨halike.erasedTokens_eq, hcount⟩
    | _ => cases hshape
  | .and clauses, clause', s₁, s₁', s₂, s₂', f, f', hshape, h₁, h₂, hs => by
    cases clause' with
    | and clauses' =>
      simp only [conditions, map_eq_ok, Prod.mk.injEq] at h₁ h₂
      obtain ⟨⟨fs, _⟩, hfs, rfl, rfl⟩ := h₁
      obtain ⟨⟨fs', _⟩, hfs', rfl, rfl⟩ := h₂
      obtain ⟨hempty, hparts, hcount⟩ := conditionsAll_erasedTokens clauses clauses' hshape hfs hfs' hs
      refine ⟨?_, hcount⟩
      show erasedTokens g b (layout g.dialect (.and fs)) = erasedTokens g b (layout g.dialect (.and fs'))
      rw [layout, layout, hempty]
      split_ifs
      · rfl
      · exact erasedTokens_wrap (erasedTokens_join hparts)
    | _ => cases hshape
  | .or clauses, clause', s₁, s₁', s₂, s₂', f, f', hshape, h₁, h₂, hs => by
    cases clause' with
    | or clauses' =>
      simp only [conditions, map_eq_ok, Prod.mk.injEq] at h₁ h₂
      obtain ⟨⟨fs, _⟩, hfs, rfl, rfl⟩ := h₁
      obtain ⟨⟨fs', _⟩, hfs', rfl, rfl⟩ := h₂
      obtain ⟨hempty, hparts, hcount⟩ := conditionsAll_erasedTokens clauses clauses' hshape hfs hfs' hs
      refine ⟨?_, hcount⟩
      show erasedTokens g b (layout g.dialect (.or fs)) = erasedTokens g b (layout g.dialect (.or fs'))
      rw [layout, layout, hempty]
      split_ifs
      · rfl
      · exact erasedTokens_wrap (erasedTokens_join hparts)
    | _ => cases hshape
  | .not clause, clause', s₁, s₁', s₂, s₂', f, f', hshape, h₁, h₂, hs => by
    cases clause' with
    | not clause' =>
      simp only [conditions, map_eq_ok, Prod.mk.injEq] at h₁ h₂
      obtain ⟨⟨f₀, _⟩, hf, rfl, rfl⟩ := h₁
      obtain ⟨⟨f₀', _⟩, hf', rfl, rfl⟩ := h₂
      obtain ⟨htokens, hcount⟩ := conditions_erasedTokens clause clause' hshape hf hf' hs
      exact ⟨erasedTokens_wrap htokens, hcount⟩
    | _ => cases hshape

theorem conditionsAll_erasedTokens : ∀ (clauses clauses' : List WhereClause) {s₁ s₁' s₂ s₂' : GenState}
    {fs fs' : List (Formula Condition)}, SameShapes g.indexes clauses clauses' →
      conditionsAll g clauses s₁ = .ok (fs, s₁') → conditionsAll g clauses' s₂ = .ok (fs', s₂') →
      SameCount s₁ s₂ → fs.isEmpty = fs'.isEmpty ∧
      (layoutAll g.dialect fs).map (erasedTokens g b) = (layoutAll g.dialect fs').map (erasedTokens g b) ∧
      SameCount s₁' s₂'
  | [], clauses', s₁, s₁', s₂, s₂', fs, fs', hshape, h₁, h₂, hs => by
    cases clauses' with
    | nil =>
      cases h₁
      cases h₂
      exact ⟨rfl, rfl, hs⟩
    | cons clause' clauses' => cases hshape
  | clause :: clauses, clauses', s₁, s₁', s₂, s₂', fs, fs', hshape, h₁, h₂, hs => by
    cases clauses' with
    | nil => cases hshape
    | cons clause' clauses' =>
      simp only [conditionsAll, bind_eq_ok, pure_eq_ok, Prod.mk.injEq] at h₁ h₂
      obtain ⟨⟨f, t₁⟩, hf, ⟨fs, _⟩, hfs, rfl, rfl⟩ := h₁
      obtain ⟨⟨f', t₂⟩, hf', ⟨fs', _⟩, hfs', rfl, rfl⟩ := h₂
      obtain ⟨htokens, hcount⟩ := conditions_erasedTokens clause clause' hshape.1 hf hf' hs
      obtain ⟨_, hparts, hcount⟩ := conditionsAll_erasedTokens clauses clauses' hshape.2 hfs hfs' hcount
      refine ⟨rfl, ?_, hcount⟩
      rw [layoutAll, layoutAll, map_cons, map_cons, htokens, hparts]

end

/-- Clauses of one shape whose paths are plain have the same skeleton. -/
theorem skeleton_eq_of_plain {clause clause' : WhereClause} {k : Nat} {sql sql' : String}
    {params params' : List Json} (hshape : SameShape g.indexes clause clause')
    (h : generateWithParamOffset g clause k = .ok (sql, params))
    (h' : generateWithParamOffset g clause' k = .ok (sql', params')) (hplain : PlainPaths g b clause)
    (hplain' : PlainPaths g b clause') :
    skeleton (rules b g.dialect) sql.toList = skeleton (rules b g.dialect) sql'.toList := by
  obtain ⟨f, s, hf, rfl, _⟩ := generate_eq_ok h
  obtain ⟨f', s', hf', rfl, _⟩ := generate_eq_ok h'
  rw [String.toList_ofList, String.toList_ofList, skeleton, skeleton, lex_generated hf hplain,
    lex_generated hf' hplain']
  exact (conditions_erasedTokens clause clause' hshape hf hf' ⟨rfl, rfl⟩).1

end Tokens

/-! ### Other paths in the same clause -/

mutual

/-- The clause with other paths. -/
def rename (σ : List String → List String) : WhereClause → WhereClause
  | .field path op value => .field (σ path) op value
  | .and clauses => .and (renameAll σ clauses)
  | .or clauses => .or (renameAll σ clauses)
  | .not clause => .not (rename σ clause)
  | .nativeField column pgCast op value => .nativeField column pgCast op value

def renameAll (σ : List String → List String) : List WhereClause → List WhereClause
  | [] => []
  | clause :: clauses => rename σ clause :: renameAll σ clauses

end

/-- The piece with another path. -/
def Piece.rename (σ : List String → List String) : Piece → Piece
  | .subject (.field path) => .subject (.field (σ path))
  | piece => piece

section Rename

variable {g : Generator} {σ : List String → List String}

theorem constantSql_rename (t : Template) : (constantSql t).map (Piece.rename σ) = constantSql t := by
  rw [constantSql, map_map]
  apply map_congr_left
  intro f _
  cases f <;> rfl

/-- The condition about another path. -/
def Condition.rename (σ : List String → List String) (c : Condition) : Condition :=
  match c.subject with
  | .field path => { c with subject := .field (σ path) }
  | .column _ => c

theorem Condition.rename_piece (c : Condition) (f : Frag) :
    (c.rename σ).piece f = (c.piece f).rename σ := by
  obtain ⟨subject, bound, template⟩ := c
  cases subject with
  | column name | field path =>
    cases f with
    | text cs => rfl
    | hole h =>
      cases h with
      | field => rfl
      | param i =>
        simp only [Condition.rename, Condition.piece]
        cases bound[i]? <;> rfl

theorem Condition.rename_sql (c : Condition) : (c.rename σ).sql = c.sql.map (Piece.rename σ) := by
  have htemplate : (c.rename σ).template = c.template := by
    rw [Condition.rename]
    cases c.subject <;> rfl
  rw [Condition.sql, Condition.sql, htemplate, map_map]
  apply map_congr_left
  intro f _
  exact c.rename_piece f

theorem visitField_rename (path : List String) (op : WhereOperator) (value : Json) (s : GenState) :
    visitField g (σ path) op value s =
      (visitField g path op value s).map fun r => (r.1.rename σ, r.2) := by
  rw [visitField, visitField]
  cases conditionOf op value g.dialect <;> rfl

theorem visitNativeField_rename {column : String} {pgCast : PgCast} {op : WhereOperator} {value : Json}
    {s s' : GenState} {c : Condition} (h : visitNativeField g column pgCast op value s = .ok (c, s')) :
    c.sql.map (Piece.rename σ) = c.sql := by
  obtain ⟨_, _, rfl, _⟩ := visitNativeField_eq_ok h
  rw [← Condition.rename_sql]
  rfl

theorem renameAll_isEmpty (clauses : List WhereClause) : (renameAll σ clauses).isEmpty = clauses.isEmpty := by
  cases clauses <;> rfl

mutual

/-- Other paths change the subjects of the generated SQL only. -/
theorem visit_rename : ∀ (clause : WhereClause) (s : GenState), visit g (rename σ clause) s =
    (visit g clause s).map fun r => (r.1.map (Piece.rename σ), r.2)
  | .field path op value, s => by
    rw [rename, visit, visit, visitField_rename]
    cases visitField g path op value s with
    | error e => rfl
    | ok r =>
      show ok (_, _) = ok (_, _)
      rw [Condition.rename_sql]
  | .nativeField column pgCast op value, s => by
    rw [rename, visit]
    cases h : visitNativeField g column pgCast op value s with
    | error e => rfl
    | ok r =>
      show ok (_, _) = ok (_, _)
      rw [visitNativeField_rename h]
  | .and clauses, s | .or clauses, s => by
    rw [rename, visit, visit, renameAll_isEmpty, visitAll_rename clauses s]
    split_ifs
    · show ok (_, _) = ok (_, _)
      rw [constantSql_rename]
    · cases visitAll g clauses s with
      | error e => rfl
      | ok r =>
        show ok (_, _) = ok (_, _)
        simp only [joinSql, map_append, map_cons, map_nil, joined_map, Piece.rename]
  | .not clause, s => by
    rw [rename, visit, visit, visit_rename clause s]
    cases visit g clause s with
    | error e => rfl
    | ok r =>
      show ok (_, _) = ok (_, _)
      simp only [map_append, map_cons, map_nil, Piece.rename]

theorem visitAll_rename : ∀ (clauses : List WhereClause) (s : GenState), visitAll g (renameAll σ clauses) s =
    (visitAll g clauses s).map fun r => (r.1.map (List.map (Piece.rename σ)), r.2)
  | [], s => rfl
  | clause :: clauses, s => by
    rw [renameAll, visitAll, visitAll, visit_rename clause s]
    cases visit g clause s with
    | error e => rfl
    | ok r =>
      obtain ⟨part, s'⟩ := r
      show (visitAll g (renameAll σ clauses) s' >>= _) = _
      rw [visitAll_rename clauses s']
      show _ = Except.map _ (visitAll g clauses s' >>= _)
      cases visitAll g clauses s' <;> rfl

end

mutual

theorem rename_sameShape (hlength : ∀ path, path.length = (σ path).length)
    (hindexes : ∀ path, g.indexes path = g.indexes (σ path)) :
    ∀ clause : WhereClause, SameShape g.indexes clause (rename σ clause)
  | .field path _ _ => ⟨hlength path, hindexes path, rfl, rfl⟩
  | .and clauses | .or clauses => renameAll_sameShapes hlength hindexes clauses
  | .not clause => rename_sameShape hlength hindexes clause
  | .nativeField _ _ _ _ => ⟨rfl, rfl, rfl⟩

theorem renameAll_sameShapes (hlength : ∀ path, path.length = (σ path).length)
    (hindexes : ∀ path, g.indexes path = g.indexes (σ path)) :
    ∀ clauses : List WhereClause, SameShapes g.indexes clauses (renameAll σ clauses)
  | [] => trivial
  | clause :: clauses =>
    ⟨rename_sameShape hlength hindexes clause, renameAll_sameShapes hlength hindexes clauses⟩

end

mutual

theorem paths_rename : ∀ clause : WhereClause, paths (rename σ clause) = (paths clause).map σ
  | .field path op value => by
    rw [rename, paths, paths]
    split_ifs <;> rfl
  | .and clauses => pathsAll_rename clauses
  | .or clauses => pathsAll_rename clauses
  | .not clause => paths_rename clause
  | .nativeField _ _ _ _ => rfl

theorem pathsAll_rename : ∀ clauses : List WhereClause, pathsAll (renameAll σ clauses) = (pathsAll clauses).map σ
  | [] => rfl
  | clause :: clauses => by
    rw [renameAll, pathsAll, pathsAll, map_append, paths_rename clause, pathsAll_rename clauses]

end

end Rename

/-! ### Where the field is rendered -/

def isField : Frag → Bool
  | .hole .field => true
  | _ => false

theorem field_mem {t : Template} (h : t.any isField = true) : Frag.hole .field ∈ t := by
  obtain ⟨f, hf, hfield⟩ := any_eq_true.mp h
  cases f with
  | text cs => cases hfield
  | hole hole =>
    cases hole with
    | field => exact hf
    | param i => cases hfield

/-- A MySQL condition mentions its field, unless it is an IN over no values. -/
theorem field_mem_of_mysql {op : WhereOperator} {value : Json} {values : List Json} {t : Template}
    (h : conditionOf op value .mysql = .ok (values, t)) (hskips : skipsField op value = false) :
    Frag.hole .field ∈ t := by
  have hmembership : ∀ negate, membership negate value .mysql = .ok (values, t) →
      value.asArray?.any List.isEmpty = false → Frag.hole .field ∈ t := by
    intro negate h hempty
    cases value with
    | arr items =>
      cases items with
      | nil => cases hempty
      | cons item items =>
        cases h
        cases negate <;> exact field_mem rfl
    | _ => cases h
  have hpattern : ∀ name like parts, (∀ rhs, (like lhs rhs Dialect.mysql).any isField = true) →
      patternMatch name like parts value .mysql = .ok (values, t) → Frag.hole .field ∈ t := by
    intro name like parts hlike h
    simp only [patternMatch, bind_eq_ok, pure_eq_ok, Prod.mk.injEq] at h
    obtain ⟨_, _, _, rfl⟩ := h
    exact field_mem (hlike _)
  have hregex : ∀ caseInsensitive negate, regexMatch caseInsensitive negate value .mysql = .ok (values, t) →
      Frag.hole .field ∈ t := by
    intro caseInsensitive negate h
    cases regexMatch_sql h
    cases negate <;> exact field_mem rfl
  cases op with
  | eq | neq =>
    cases h
    cases value <;> exact field_mem rfl
  | isIn => exact hmembership false h hskips
  | nin => exact hmembership true h hskips
  | isNull =>
    cases h
    split_ifs <;> exact field_mem rfl
  | contains | startswith | endswith => exact hpattern _ _ _ (fun _ => rfl) h
  | icontains | istartswith | iendswith => exact hpattern _ _ _ (fun _ => rfl) h
  | regex => exact hregex false false h
  | iregex => exact hregex true false h
  | nregex => exact hregex false true h
  | niregex => exact hregex true true h
  | matchesAnyLquery | lca =>
    simp only [conditionOf, overItems, bind_eq_ok] at h
    obtain ⟨items, _, h⟩ := h
    cases items <;> cases h
  | gt | gte | lt | lte | like | ilike | nlike | nilike | lenEq | lenNeq | lenGt | lenGte | lenLt | lenLte
  | arrayContains | strictlyContains | arrayOverlaps | «matches» | plainQuery | phraseQuery =>
    cases h
    exact field_mem rfl
  | _ => cases h

theorem mem_wrap {start stop : List Char} {sql : Sql} {piece : Piece} (h : piece ∈ sql) :
    piece ∈ Piece.text start :: sql ++ [.text stop] :=
  mem_append_left _ (mem_cons_of_mem _ h)

section Mention

variable {g : Generator}

mutual

theorem subject_mem (hd : g.dialect = .mysql) : ∀ (clause : WhereClause) {s s' : GenState} {sql : Sql},
    visit g clause s = .ok (sql, s') → ∀ path ∈ paths clause, Piece.subject (.field path) ∈ sql
  | .field path op value, s, s', sql, h, path', hpath => by
    rw [paths] at hpath
    split_ifs at hpath with hskips
    · cases hpath
    · obtain rfl := mem_singleton.mp hpath
      simp only [visit, bind_eq_ok, pure_eq_ok, Prod.mk.injEq] at h
      obtain ⟨⟨c, _⟩, hvisit, rfl, _⟩ := h
      obtain ⟨values, t, hcond, rfl, _⟩ := visitField_eq_ok hvisit
      rw [hd] at hcond
      exact mem_map.mpr ⟨_, field_mem_of_mysql hcond (by simpa using hskips), rfl⟩
  | .nativeField _ _ _ _, s, s', sql, h, path, hpath => by cases hpath
  | .and clauses, s, s', sql, h, path, hpath | .or clauses, s, s', sql, h, path, hpath => by
    rw [visit] at h
    split_ifs at h with hempty
    · obtain rfl := isEmpty_iff.mp hempty
      cases hpath
    · simp only [bind_eq_ok, pure_eq_ok, Prod.mk.injEq] at h
      obtain ⟨⟨parts, _⟩, hparts, rfl, _⟩ := h
      exact mem_wrap (mem_joined (subject_mem_all hd clauses hparts path hpath))
  | .not clause, s, s', sql, h, path, hpath => by
    simp only [visit, bind_eq_ok, pure_eq_ok, Prod.mk.injEq] at h
    obtain ⟨⟨part, _⟩, hpart, rfl, _⟩ := h
    exact mem_wrap (subject_mem hd clause hpart path hpath)

theorem subject_mem_all (hd : g.dialect = .mysql) : ∀ (clauses : List WhereClause) {s s' : GenState}
    {parts : List Sql}, visitAll g clauses s = .ok (parts, s') →
      ∀ path ∈ pathsAll clauses, ∃ part ∈ parts, Piece.subject (.field path) ∈ part
  | [], s, s', parts, h, path, hpath => by cases hpath
  | clause :: clauses, s, s', parts, h, path, hpath => by
    simp only [visitAll, bind_eq_ok, pure_eq_ok, Prod.mk.injEq] at h
    obtain ⟨⟨part, _⟩, hpart, ⟨parts, _⟩, hparts, rfl, _⟩ := h
    rcases mem_append.mp hpath with hpath | hpath
    · exact ⟨part, mem_cons_self .., subject_mem hd clause hpart path hpath⟩
    · obtain ⟨part', hmem, hsubject⟩ := subject_mem_all hd clauses hparts path hpath
      exact ⟨part', mem_cons_of_mem _ hmem, hsubject⟩

end

end Mention

/-! ### A path that breaks out of its literal -/

section Payload

variable {g : Generator}

/-- Every segment of an unindexed path replaced by one word. -/
def spread (g : Generator) (word : String) (path : List String) : List String :=
  if g.indexes path then path else path.map fun _ => word

/-- More characters than any indexed column has. -/
def padding (g : Generator) : List Char :=
  List.replicate (((g.indexedColumns.getD []).map String.length).sum + 1) 'a'

/-- A segment without special characters. -/
def safeWord (g : Generator) : String := String.ofList (padding g)

/-- A segment that closes its literal: the backslash escapes the first of the two quotes. -/
def payload (g : Generator) : String := String.ofList ('\\' :: '\'' :: ',' :: padding g)

theorem spread_length (word : String) (path : List String) : path.length = (spread g word path).length := by
  rw [spread]
  split_ifs
  · rfl
  · rw [length_map]

theorem length_le_intercalate {sep segment : String} {path : List String} (h : segment ∈ path) :
    segment.length ≤ (String.intercalate sep path).length := by
  induction path with
  | nil => cases h
  | cons first path ih =>
    cases path with
    | nil =>
      obtain rfl := mem_singleton.mp h
      exact (congrArg String.length String.intercalate_singleton).ge
    | cons next path =>
      rw [String.intercalate_cons_cons, String.length_append, String.length_append]
      rcases mem_cons.mp h with rfl | h
      · omega
      · have hrest := ih h
        omega

/-- A word longer than every indexed column leaves no path indexed that was not. -/
theorem spread_indexes {word : String} (hword : (padding g).length ≤ word.length) (path : List String) :
    g.indexes path = g.indexes (spread g word path) := by
  rw [spread]
  split_ifs with hindexes
  · rfl
  · rw [Bool.not_eq_true] at hindexes
    rw [hindexes]
    cases path with
    | nil => exact hindexes.symm
    | cons segment path =>
      have hmem : word ∈ (segment :: path).map fun _ => word := mem_cons_self ..
      rw [Generator.indexes]
      cases hcolumns : g.indexedColumns with
      | none => rfl
      | some indexed =>
        symm
        apply decide_eq_false
        intro hin
        have hlong : word.length ≤ (String.intercalate "__" ((segment :: path).map fun _ => word)).length :=
          length_le_intercalate hmem
        have hshort : (String.intercalate "__" ((segment :: path).map fun _ => word)).length ≤
            (indexed.map String.length).sum :=
          single_le_sum (fun _ _ => Nat.zero_le _) _ (mem_map_of_mem hin)
        rw [padding, hcolumns, length_replicate] at hword
        have hbound : (indexed.map String.length).sum + 1 ≤ word.length := hword
        omega

theorem safeWord_plain : '\\' ∉ (safeWord g).toList := by
  rw [safeWord, String.toList_ofList, padding]
  intro hmem
  have heq := eq_of_mem_replicate hmem
  revert heq
  decide

/-- A piece the payload changes. -/
def tainted (g : Generator) : Piece → Bool
  | .subject (.field path) => !g.indexes path && !path.isEmpty
  | _ => false

theorem rename_of_not_tainted {word : String} {piece : Piece} (h : tainted g piece = false) :
    piece.rename (spread g word) = piece := by
  cases piece with
  | subject s =>
    cases s with
    | field path =>
      rw [Piece.rename, spread]
      split_ifs with hindexes
      · rfl
      · simp only [tainted, hindexes, Bool.not_false, Bool.true_and, Bool.not_eq_false'] at h
        rw [isEmpty_iff.mp h]
        rfl
    | column name => rfl
  | _ => rfl

/-- The function around a path in MySQL. -/
def extractStart : List Char := lit "JSON_UNQUOTE(JSON_EXTRACT(data, "

theorem extractStart_lexes : Lexes (rules true .mysql) extractStart (lex (rules true .mysql) extractStart) true :=
  ⟨rfl, rfl, fun _ => rfl⟩

/-- The payload closes the literal it begins, and goes on with a comma. -/
theorem payload_lex (path : List String) (rest : List Char) : ∃ content ts,
    lex (rules true .mysql) (jsonExtractScalar (payload g :: path) .mysql ++ rest) =
      lex (rules true .mysql) extractStart ++ .quoted .single content :: .symbol ',' :: ts := by
  obtain ⟨more, hmore⟩ : ∃ more, (String.intercalate "." (payload g :: path)).toList =
      '\\' :: '\'' :: ',' :: more := by
    cases path with
    | nil => exact ⟨padding g, by rw [String.intercalate_singleton, payload, String.toList_ofList]⟩
    | cons next path =>
      refine ⟨padding g ++ (".".toList ++ (String.intercalate "." (next :: path)).toList), ?_⟩
      rw [String.intercalate_cons_cons, String.toList_append, String.toList_append, payload,
        String.toList_ofList, append_assoc]
      rfl
  have hliteral : jsonPathLiteral (payload g :: path) =
      ['\'', '$', '.', '\\', '\'', '\'', ','] ++ (doubled .single more ++ ['\'']) := by
    rw [jsonPathLiteral, hmore]
    rfl
  have hclosed : Lexes (rules true .mysql) ['\'', '$', '.', '\\', '\'', '\'', ',']
      [.quoted .single ['$', '.', '\''], .symbol ','] true := ⟨rfl, rfl, fun _ => rfl⟩
  have htext : jsonExtractScalar (payload g :: path) .mysql ++ rest = extractStart ++
      (['\'', '$', '.', '\\', '\'', '\'', ','] ++ (doubled .single more ++ ['\''] ++ (lit "))" ++ rest))) := by
    rw [jsonExtractScalar, hliteral]
    simp only [extractStart, append_assoc]
  refine ⟨['$', '.', '\''], lex (rules true .mysql) (doubled .single more ++ ['\''] ++ (lit "))" ++ rest)), ?_⟩
  rw [htext, extractStart_lexes.lex_append, hclosed.lex_append]
  rfl

/-- A safe path is followed by a parenthesis. -/
theorem safe_tokens (path : List String) (ts : List Token) : jsonExtractTokens true path .mysql ++ ts =
    lex (rules true .mysql) extractStart ++
      .quoted .single (pathContent path) :: .symbol ')' :: .symbol ')' :: ts := by
  have hstop : lex (rules true .mysql) (lit "))") = [.symbol ')', .symbol ')'] := rfl
  rw [jsonExtractTokens, aroundPath, hstop, append_assoc]
  rfl

/-- What stands before a piece that begins with no separator ends between two tokens. -/
theorem Lays.before {b : Bool} {before after : Sql} {piece : Piece} (h : Lays g b (before ++ piece :: after))
    (hopens : (piece.chunk g b).opens = false) :
    Lexes (rules b g.dialect) (renderSql g before) (before.flatMap (Piece.tokens g b)) true := by
  rw [Lays, map_append, map_cons] at h
  have hlexes := h.before hopens
  rwa [map_chunk_chars, map_chunk_tokens] at hlexes

theorem generate_rename {clause : WhereClause} {s s' : GenState} {pieces : Sql}
    (h : visit g clause s = .ok (pieces, s')) (σ : List String → List String) :
    ∃ f, conditions g (rename σ clause) s = .ok (f, s') ∧
      layout g.dialect f = pieces.map (Piece.rename σ) := by
  have hvisit : visit g (rename σ clause) s = .ok (pieces.map (Piece.rename σ), s') := by
    rw [visit_rename, h]
    rfl
  rw [visit_eq_layout, map_eq_ok] at hvisit
  obtain ⟨⟨f, _⟩, hf, heq⟩ := hvisit
  obtain ⟨hlayout, rfl⟩ := Prod.mk.inj heq
  exact ⟨f, hf, hlayout⟩

theorem safe_plain (clause : WhereClause) : PlainPaths g true (rename (spread g (safeWord g)) clause) := by
  intro _ _ path hpath hindexes segment hsegment
  rw [paths_rename] at hpath
  obtain ⟨path₀, _, rfl⟩ := mem_map.mp hpath
  rw [spread] at hindexes hsegment
  split_ifs at hindexes hsegment with hindexed
  · rw [hindexed] at hindexes
    cases hindexes
  · obtain ⟨_, _, rfl⟩ := mem_map.mp hsegment
    exact safeWord_plain

/-- In MySQL, a rendered path can be given segments that change the structure of the SQL. -/
theorem skeletons_differ {clause : WhereClause} {k : Nat} {sql : String} {params : List Json}
    (hd : g.dialect = .mysql) (h : generateWithParamOffset g clause k = .ok (sql, params)) {path : List String}
    (hpath : path ∈ paths clause) (hindexes : g.indexes path = false) (hne : path ≠ []) : ∃ sql₁ sql₂,
      generateWithParamOffset g (rename (spread g (safeWord g)) clause) k = .ok (sql₁, params) ∧
      generateWithParamOffset g (rename (spread g (payload g)) clause) k = .ok (sql₂, params) ∧
      skeleton (rules true g.dialect) sql₁.toList ≠ skeleton (rules true g.dialect) sql₂.toList := by
  simp only [generateWithParamOffset, bind_eq_ok, pure_eq_ok, Prod.mk.injEq] at h
  obtain ⟨⟨pieces, s⟩, hvisit, _, rfl⟩ := h
  have hgenerate : ∀ σ, generateWithParamOffset g (rename σ clause) k =
      .ok (String.ofList (renderSql g (pieces.map (Piece.rename σ))), s.params) := by
    intro σ
    rw [generateWithParamOffset, visit_rename, hvisit]
    rfl
  refine ⟨_, _, hgenerate _, hgenerate _, ?_⟩
  -- the first path the payload changes
  have htaint : ∃ piece ∈ pieces, tainted g piece = true := by
    refine ⟨_, subject_mem hd clause hvisit path hpath, ?_⟩
    rw [tainted, hindexes]
    cases path with
    | nil => exact absurd rfl hne
    | cons _ _ => rfl
  obtain ⟨before, piece, after, rfl, hpiece, hbefore⟩ := first_of_mem htaint
  obtain ⟨segment, path, rfl, hindexes⟩ : ∃ segment path, piece = .subject (.field (segment :: path)) ∧
      g.indexes (segment :: path) = false := by
    cases piece with
    | subject subject =>
      cases subject with
      | field path =>
        simp only [tainted, Bool.and_eq_true, Bool.not_eq_true'] at hpiece
        cases path with
        | nil => cases hpiece.2
        | cons segment path => exact ⟨segment, path, rfl, hpiece.1⟩
      | column name => cases hpiece
    | _ => cases hpiece
  have hkept : ∀ word, before.map (Piece.rename (spread g word)) = before := by
    intro word
    conv_rhs => rw [← map_id before]
    apply map_congr_left
    intro y hy
    exact rename_of_not_tainted (hbefore y hy)
  have hspread : ∀ word, spread g word (segment :: path) = word :: path.map fun _ => word := by
    intro word
    rw [spread, hindexes]
    rfl
  have hsplit : ∀ word, (before ++ .subject (.field (segment :: path)) :: after).map
      (Piece.rename (spread g word)) = before ++ .subject (.field (word :: path.map fun _ => word)) ::
        after.map (Piece.rename (spread g word)) := by
    intro word
    rw [map_append, hkept, map_cons, Piece.rename, hspread]
  have hunindexed : ∀ word : String, (padding g).length ≤ word.length →
      g.indexes (word :: path.map fun _ => word) = false := by
    intro word hword
    rw [← hspread, ← spread_indexes hword]
    exact hindexes
  have hsafe := hunindexed (safeWord g) (by rw [safeWord, String.length_ofList])
  have hpayload := hunindexed (payload g) (by
    rw [payload, String.length_ofList]
    exact Nat.le_add_right _ 3)
  obtain ⟨f, hf, hlayout⟩ := generate_rename hvisit (spread g (safeWord g))
  have hlays := layout_lays f (conditions_wellFormed _ hf (safe_plain clause))
  rw [hlayout, hsplit] at hlays
  have hlexes := hlays.before rfl
  have hsafeLex : lex (rules true g.dialect) (renderSql g (before ++
      .subject (.field (safeWord g :: path.map fun _ => safeWord g)) ::
        after.map (Piece.rename (spread g (safeWord g))))) = before.flatMap (Piece.tokens g true) ++
      (lex (rules true .mysql) extractStart ++ .quoted .single
        (pathContent (safeWord g :: path.map fun _ => safeWord g)) :: .symbol ')' :: .symbol ')' ::
          (after.map (Piece.rename (spread g (safeWord g)))).flatMap (Piece.tokens g true)) := by
    rw [hlays.lex_eq, flatMap_append, flatMap_cons, Piece.tokens, subjectTokens, hsafe, hd,
      ← safe_tokens]
    rfl
  obtain ⟨content, ts, hpayloadLex⟩ := payload_lex (g := g) (path.map fun _ => payload g)
    (renderSql g (after.map (Piece.rename (spread g (payload g)))))
  have hpayloadText : renderSql g (before ++ .subject (.field (payload g :: path.map fun _ => payload g)) ::
      after.map (Piece.rename (spread g (payload g)))) = renderSql g before ++
      (jsonExtractScalar (payload g :: path.map fun _ => payload g) .mysql ++
        renderSql g (after.map (Piece.rename (spread g (payload g))))) := by
    rw [renderSql, flatMap_append, flatMap_cons, Piece.render, resolveFieldExpr_eq, hpayload, hd]
    rfl
  intro heq
  rw [String.toList_ofList, String.toList_ofList, hsplit, hsplit, skeleton, skeleton, hsafeLex, hpayloadText,
    hlexes.lex_append, hd, hpayloadLex] at heq
  simp only [map_append, map_cons, Token.erase, append_cancel_left_eq, List.cons.injEq,
    true_and] at heq
  exact absurd heq.1 (by decide)

end Payload

/-! ### Injection safety -/

section Safety

variable {g : Generator}

theorem skipsField_shape (op : WhereOperator) (value : Json) :
    skipsField op.shape value.shape = skipsField op value := by
  have harray : value.shape.asArray?.any List.isEmpty = value.asArray?.any List.isEmpty := by
    cases value with
    | arr items => cases items <;> rfl
    | _ => rfl
  have hop : ∀ op' : WhereOperator, (∀ e, op' ≠ .extended e) → (decide (op.shape = op') = decide (op = op')) := by
    intro op' hop'
    cases op with
    | extended e =>
      have hshape : WhereOperator.shape (.extended e) ≠ op' := fun h => hop' _ h.symm
      have hsame : WhereOperator.extended e ≠ op' := fun h => hop' _ h.symm
      rw [decide_eq_false hshape, decide_eq_false hsame]
    | _ => rfl
  rw [skipsField, skipsField, harray, hop .isIn (by rintro _ ⟨⟩), hop .nin (by rintro _ ⟨⟩)]

/-- Paths of the same length, indexed alike. -/
def SamePath (g : Generator) (path path' : List String) : Prop :=
  path.length = path'.length ∧ g.indexes path = g.indexes path'

mutual

theorem paths_sameShape : ∀ (clause clause' : WhereClause), SameShape g.indexes clause clause' →
    List.Forall₂ (SamePath g) (paths clause) (paths clause')
  | .field path op value, clause', h => by
    cases clause' with
    | field path' op' value' =>
      obtain ⟨hlength, hindexes, hop, hvalue⟩ := h
      rw [paths, paths, ← skipsField_shape op value, hop, hvalue, skipsField_shape]
      split_ifs
      · exact .nil
      · exact .cons ⟨hlength, hindexes⟩ .nil
    | _ => cases h
  | .and clauses, clause', h => by
    cases clause' with
    | and clauses' => exact pathsAll_sameShapes clauses clauses' h
    | _ => cases h
  | .or clauses, clause', h => by
    cases clause' with
    | or clauses' => exact pathsAll_sameShapes clauses clauses' h
    | _ => cases h
  | .not clause, clause', h => by
    cases clause' with
    | not clause' => exact paths_sameShape clause clause' h
    | _ => cases h
  | .nativeField _ _ _ _, clause', h => by
    cases clause' with
    | nativeField _ _ _ _ => exact .nil
    | _ => cases h

theorem pathsAll_sameShapes : ∀ (clauses clauses' : List WhereClause), SameShapes g.indexes clauses clauses' →
    List.Forall₂ (SamePath g) (pathsAll clauses) (pathsAll clauses')
  | [], clauses', h => by
    cases clauses' with
    | nil => exact .nil
    | cons _ _ => cases h
  | clause :: clauses, clauses', h => by
    cases clauses' with
    | nil => cases h
    | cons clause' clauses' =>
      exact rel_append (paths_sameShape clause clause' h.1) (pathsAll_sameShapes clauses clauses' h.2)

end

/-- No rendered path is a MySQL literal with a segment in it. -/
def NoMysqlPath (g : Generator) (clause : WhereClause) : Prop :=
  g.dialect = .mysql → ∀ path ∈ paths clause, g.indexes path = false → path = []

theorem NoMysqlPath.plain {clause clause' : WhereClause} (h : NoMysqlPath g clause)
    (hshape : SameShape g.indexes clause clause') : PlainPaths g true clause' := by
  intro _ hd path' hpath' hindexes segment hsegment
  obtain ⟨path, hpath, hlength, hsame⟩ : ∃ path ∈ paths clause, SamePath g path path' := by
    have hrel := paths_sameShape clause clause' hshape
    generalize paths clause = ps at hrel
    generalize paths clause' = ps' at hrel hpath'
    induction hrel with
    | nil => cases hpath'
    | @cons p q ps qs hpq _ ih =>
      rcases mem_cons.mp hpath' with rfl | hpath'
      · exact ⟨p, mem_cons_self .., hpq⟩
      · obtain ⟨path, hmem, hpath⟩ := ih hpath'
        exact ⟨path, mem_cons_of_mem _ hmem, hpath⟩
  obtain rfl := h hd path hpath (hsame.trans hindexes)
  obtain rfl := length_eq_zero_iff.mp hlength.symm
  cases hsegment

/-- Whatever strings a clause of this shape has, its SQL has the same tokens up to the contents of literals
and quoted identifiers; MySQL is read in its default mode. -/
def InjectionSafe (g : Generator) (clause : WhereClause) (k : Nat) : Prop :=
  ∀ clause₁ clause₂ sql₁ sql₂ params₁ params₂, SameShape g.indexes clause clause₁ →
    SameShape g.indexes clause clause₂ →
    generateWithParamOffset g clause₁ k = .ok (sql₁, params₁) →
    generateWithParamOffset g clause₂ k = .ok (sql₂, params₂) →
    skeleton (rules true g.dialect) sql₁.toList = skeleton (rules true g.dialect) sql₂.toList

end Safety

end FraiseQL.WhereGenerator
