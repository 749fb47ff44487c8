import FraiseQL.DialectLexing
import FraiseQL.WhereGeneratorTemplates

/-! The text of a generated clause and its tokens. A clause is first turned into a formula over its
conditions, in the order the generator visits them; the generated SQL is the layout of that formula, and its
tokens are those of the pieces it is laid out from. -/

namespace FraiseQL.WhereGenerator

open SqlLex SqlBoolean Dialect Outcome List

/-! ### The formula of a clause -/

inductive Formula (α : Type) where
  | leaf (a : α)
  | and (fs : List (Formula α))
  | or (fs : List (Formula α))
  | not (f : Formula α)

mutual

/-- The clause with every leaf replaced by the condition the generator renders for it. -/
def conditions (g : Generator) :
    WhereClause → GenState → Except FraiseQLError (Formula Condition × GenState)
  | .and clauses, s => (conditionsAll g clauses s).map fun r => (.and r.1, r.2)
  | .or clauses, s => (conditionsAll g clauses s).map fun r => (.or r.1, r.2)
  | .not clause, s => (conditions g clause s).map fun r => (.not r.1, r.2)
  | .field path op value, s => (visitField g path op value s).map fun r => (.leaf r.1, r.2)
  | .nativeField column pgCast op value, s =>
    (visitNativeField g column pgCast op value s).map fun r => (.leaf r.1, r.2)

def conditionsAll (g : Generator) :
    List WhereClause → GenState → Except FraiseQLError (List (Formula Condition) × GenState)
  | [], s => .ok ([], s)
  | clause :: clauses, s => do
    let (f, s') ← conditions g clause s
    let (fs, s'') ← conditionsAll g clauses s'
    return (f :: fs, s'')

end

mutual

def layout (d : Dialect) : Formula Condition → Sql
  | .leaf c => c.sql
  | .and fs =>
    if fs.isEmpty then constantSql (alwaysTrue d)
    else .text (lit "(") :: joinSql (lit " AND ") (layoutAll d fs) ++ [.text (lit ")")]
  | .or fs =>
    if fs.isEmpty then constantSql (alwaysFalse d)
    else .text (lit "(") :: joinSql (lit " OR ") (layoutAll d fs) ++ [.text (lit ")")]
  | .not f => .text (lit "NOT (") :: layout d f ++ [.text (lit ")")]

def layoutAll (d : Dialect) : List (Formula Condition) → List Sql
  | [] => []
  | f :: fs => layout d f :: layoutAll d fs

end

variable {g : Generator} {s s' : GenState}

theorem conditionsAll_isEmpty {clauses : List WhereClause}
    {fs : List (Formula Condition)} (h : conditionsAll g clauses s = .ok (fs, s')) :
    fs.isEmpty = clauses.isEmpty := by
  cases clauses with
  | nil =>
    cases h
    rfl
  | cons clause clauses =>
    simp only [conditionsAll, bind_eq_ok, pure_eq_ok, Prod.mk.injEq] at h
    obtain ⟨_, _, _, _, rfl, _⟩ := h
    rfl

mutual

/-- The generated SQL is the layout of the formula. -/
theorem visit_eq_layout (g : Generator) : ∀ (clause : WhereClause) (s : GenState),
    visit g clause s = (conditions g clause s).map fun r => (layout g.dialect r.1, r.2)
  | .and clauses, s | .or clauses, s => by
    rw [visit, conditions, visitAll_eq_layoutAll g clauses s]
    cases h : conditionsAll g clauses s with
    | error e =>
      cases clauses with
      | nil => cases h
      | cons clause clauses => rfl
    | ok r =>
      have hempty := conditionsAll_isEmpty h
      cases hc : clauses.isEmpty with
      | true =>
        obtain rfl := isEmpty_iff.mp hc
        cases h
        rfl
      | false =>
        rw [hc] at hempty
        simp only [Except.map, layout, hempty]
        rfl
  | .not clause, s => by
    rw [visit, conditions, visit_eq_layout g clause s]
    cases conditions g clause s <;> rfl
  | .field path op value, s => by
    rw [visit, conditions]
    cases visitField g path op value s <;> rfl
  | .nativeField column pgCast op value, s => by
    rw [visit, conditions]
    cases visitNativeField g column pgCast op value s <;> rfl

theorem visitAll_eq_layoutAll (g : Generator) : ∀ (clauses : List WhereClause) (s : GenState),
    visitAll g clauses s = (conditionsAll g clauses s).map fun r => (layoutAll g.dialect r.1, r.2)
  | [], s => rfl
  | clause :: clauses, s => by
    rw [visitAll, conditionsAll, visit_eq_layout g clause s]
    cases conditions g clause s with
    | error e => rfl
    | ok r =>
      obtain ⟨f, s'⟩ := r
      simp only [Except.map, bind, Except.bind]
      rw [visitAll_eq_layoutAll g clauses s']
      cases conditionsAll g clauses s' <;> rfl

end

/-- What a successful generation computed. -/
theorem generate_eq_ok {clause : WhereClause} {k : Nat} {sql : String} {params : List Json}
    (h : generateWithParamOffset g clause k = .ok (sql, params)) :
    ∃ f s, conditions g clause ⟨k, []⟩ = .ok (f, s) ∧ sql = String.ofList (renderSql g (layout g.dialect f)) ∧
      params = s.params := by
  simp only [generateWithParamOffset, visit_eq_layout, bind_eq_ok, map_eq_ok,
    pure_eq_ok, Prod.mk.injEq] at h
  obtain ⟨_, ⟨⟨f, s⟩, hf, rfl⟩, hsql, hparams⟩ := h
  exact ⟨f, s, hf, hsql.symm, hparams.symm⟩

/-! ### Pieces -/

/-- Whether a path is read from an indexed column. -/
def Generator.indexes (g : Generator) (path : List String) : Bool :=
  match g.indexedColumns with
  | some indexed => decide (String.intercalate "__" path ∈ indexed)
  | none => false

theorem resolveFieldExpr_eq (g : Generator) (path : List String) : resolveFieldExpr g path =
    if g.indexes path then quoteIdentifier g.dialect (String.intercalate "__" path).toList
    else jsonExtractScalar path g.dialect := by
  rw [resolveFieldExpr, Generator.indexes]
  cases g.indexedColumns with
  | none => rfl
  | some indexed => simp only [decide_eq_true_eq]

/-- The tokens of what a condition is about. -/
def subjectTokens (g : Generator) (b : Bool) : Subject → List Token
  | .field path =>
    if g.indexes path then [.quoted g.dialect.identifierQuote (String.intercalate "__" path).toList]
    else jsonExtractTokens b path g.dialect
  | .column name => [.quoted g.dialect.identifierQuote name.toList]

def Piece.tokens (g : Generator) (b : Bool) : Piece → List Token
  | .text cs => lex (rules b g.dialect) cs
  | .subject s => subjectTokens g b s
  | .param n _ => [.placeholder (placeholder n g.dialect)]

def Piece.chunk (g : Generator) (b : Bool) : Piece → Chunk
  | .text cs => Chunk.ofText (rules b g.dialect) cs
  | piece => ⟨piece.render g, piece.tokens g b, false, false⟩

theorem Piece.chunk_chars (g : Generator) (b : Bool) (piece : Piece) :
    (piece.chunk g b).chars = piece.render g := by
  cases piece <;> rfl

theorem Piece.chunk_tokens (g : Generator) (b : Bool) (piece : Piece) :
    (piece.chunk g b).tokens = piece.tokens g b := by
  cases piece <;> rfl

/-- A path that is rendered as a literal means itself there. -/
def Subject.Plain (g : Generator) (b : Bool) : Subject → Prop
  | .field path => g.indexes path = false → plainIn b g.dialect (pathContent path)
  | .column _ => True

variable {b : Bool}

theorem subject_lexes {s : Subject} (hplain : s.Plain g b) :
    Lexes (rules b g.dialect) (Piece.render g (.subject s)) (subjectTokens g b s) false := by
  cases s with
  | field path =>
    rw [Piece.render, resolveFieldExpr_eq, subjectTokens]
    cases hindexes : g.indexes path with
    | true => exact quoteIdentifier_lexes b g.dialect _
    | false => exact jsonExtractScalar_lexes (hplain hindexes)
  | column name => exact quoteIdentifier_lexes b g.dialect _

/-- SQL whose pieces are lexed one by one. -/
def Lays (g : Generator) (b : Bool) (sql : Sql) : Prop :=
  Laid (rules b g.dialect) (sql.map (Piece.chunk g b))

theorem map_chunk_chars (g : Generator) (b : Bool) (sql : Sql) :
    (sql.map (Piece.chunk g b)).flatMap Chunk.chars = renderSql g sql := by
  simp only [flatMap_map, Piece.chunk_chars]
  rfl

theorem map_chunk_tokens (g : Generator) (b : Bool) (sql : Sql) :
    (sql.map (Piece.chunk g b)).flatMap Chunk.tokens = sql.flatMap (Piece.tokens g b) := by
  simp only [flatMap_map, Piece.chunk_tokens]

theorem Lays.lex_eq {sql : Sql} (h : Lays g b sql) :
    lex (rules b g.dialect) (renderSql g sql) = sql.flatMap (Piece.tokens g b) := by
  rw [← map_chunk_chars g b sql, h.lexes.tokens, map_chunk_tokens]

/-! ### Conditions -/

/-- The condition is rendered by a well-formed template; its subject is plain, if it is rendered at all. -/
structure Condition.WellFormed (g : Generator) (b : Bool) (c : Condition) : Prop where
  template : wellFormed (rules b g.dialect) c.bound.length c.template = true
  subject : Frag.hole .field ∈ c.template → c.subject.Plain g b

variable {c : Condition}

theorem Condition.WellFormed.bound_of_hole (hc : c.WellFormed g b) {i : Nat}
    (hi : Frag.hole (.param i) ∈ c.template) : ∃ n v, c.bound[i]? = some (n, v) := by
  obtain ⟨_, _, hholes, _, _⟩ := wellFormed_iff.mp hc.template
  have hmem : i ∈ holes c.template := mem_filterMap.mpr ⟨_, hi, rfl⟩
  rw [hholes, mem_range] at hmem
  exact ⟨_, _, getElem?_eq_getElem hmem⟩

/-- Each piece begins and ends as its fragment does. -/
theorem Condition.WellFormed.flags (hc : c.WellFormed g b) {f : Frag}
    (hf : f ∈ c.template) : ((c.piece f).chunk g b).opens = (fragChunk (rules b g.dialect) f).opens ∧
      ((c.piece f).chunk g b).fresh = (fragChunk (rules b g.dialect) f).fresh := by
  cases f with
  | text cs => exact ⟨rfl, rfl⟩
  | hole h =>
    cases h with
    | field => exact ⟨rfl, rfl⟩
    | param i =>
      obtain ⟨n, v, hbound⟩ := hc.bound_of_hole hf
      rw [Condition.piece, hbound]
      exact ⟨rfl, rfl⟩

theorem linked_congr {α : Type} {F G : α → Chunk} {xs : List α}
    (h : ∀ x ∈ xs, (F x).opens = (G x).opens ∧ (F x).fresh = (G x).fresh) (f : Bool) :
    SqlLex.linked f (xs.map F) = SqlLex.linked f (xs.map G) := by
  induction xs generalizing f with
  | nil => rfl
  | cons x xs ih =>
    obtain ⟨hopens, hfresh⟩ := h x (mem_cons_self ..)
    rw [map_cons, map_cons, SqlLex.linked, SqlLex.linked, hopens, hfresh,
      ih fun y hy => h y (mem_cons_of_mem _ hy)]

theorem Condition.WellFormed.lays (hc : c.WellFormed g b) : Lays g b c.sql := by
  obtain ⟨hsettles, hlinked, _, _, _⟩ := wellFormed_iff.mp hc.template
  constructor
  · intro chunk hchunk
    obtain ⟨piece, hpiece, rfl⟩ := mem_map.mp hchunk
    obtain ⟨f, hf, rfl⟩ := mem_map.mp hpiece
    cases f with
    | text cs => exact Chunk.ofText_valid (all_eq_true.mp hsettles _ hf)
    | hole h =>
      cases h with
      | field => exact ⟨subject_lexes (hc.subject hf), nofun⟩
      | param i =>
        obtain ⟨n, v, hbound⟩ := hc.bound_of_hole hf
        rw [Condition.piece, hbound]
        exact ⟨placeholder_lexes b g.dialect n, nofun⟩
  · rw [Condition.sql, map_map, linked_congr (F := Piece.chunk g b ∘ c.piece)
      (G := fragChunk (rules b g.dialect)) fun f hf => hc.flags hf]
    exact hlinked

theorem pushAll_length (push : GenState → Json → Nat × GenState) (values : List Json) (s : GenState) :
    (pushAll push values s).1.length = values.length := by
  induction values generalizing s with
  | nil => rfl
  | cons v values ih =>
    show (pushAll push values _).1.length + 1 = values.length + 1
    rw [ih]

variable {path : List String} {op : WhereOperator} {value : Json}

theorem visitField_eq_ok {c : Condition} (h : visitField g path op value s = .ok (c, s')) :
    ∃ values t, conditionOf op value g.dialect = .ok (values, t) ∧
      c = ⟨.field path, (pushAll (if isExtended op then pushExtended else pushParam) values s).1, t⟩ ∧
      s' = (pushAll (if isExtended op then pushExtended else pushParam) values s).2 := by
  simp only [visitField, bind_eq_ok, pure_eq_ok, Prod.mk.injEq] at h
  obtain ⟨⟨values, t⟩, hcond, hc, hs⟩ := h
  exact ⟨values, t, hcond, hc.symm, hs.symm⟩

theorem visitNativeField_eq_ok {column : String} {pgCast : PgCast} {s s' : GenState}
    (h : visitNativeField g column pgCast op value s = .ok (c, s')) :
    ∃ comparison ∈ comparisons g.dialect, c = ⟨.column column, [((pushParam s value).1, value)],
      lhs ++ comparison ++ nativeRhs g.dialect pgCast⟩ ∧ s' = (pushParam s value).2 := by
  cases op with
  | eq =>
    cases h
    exact ⟨txt " = ", by simp [comparisons], rfl, rfl⟩
  | neq =>
    cases h
    exact ⟨neqOperator g.dialect, by simp [comparisons], rfl, rfl⟩
  | _ => cases h

/-- An IN over no values is rendered as a constant. -/
def skipsField (op : WhereOperator) (value : Json) : Bool :=
  (decide (op = .isIn) || decide (op = .nin)) && value.asArray?.any List.isEmpty

theorem conditionOf_skips {d : Dialect} {values : List Json}
    {t : Template} (h : conditionOf op value d = .ok (values, t)) (hskips : skipsField op value = true) :
    Frag.hole .field ∉ t := by
  have hconstant : ∀ t ∈ [alwaysTrue d, alwaysFalse d], Frag.hole .field ∉ t := by
    cases d <;> decide
  simp only [skipsField, Bool.and_eq_true, Bool.or_eq_true, decide_eq_true_eq] at hskips
  obtain ⟨hop, harray⟩ := hskips
  cases value with
  | arr items =>
    obtain rfl : items = [] := isEmpty_iff.mp harray
    rcases hop with rfl | rfl
    · cases h
      exact hconstant _ (by simp)
    · cases h
      exact hconstant _ (by simp)
  | _ => cases harray

/-- A condition the generator renders is well formed when its subject is plain. -/
theorem visitField_wellFormed {s s' : GenState} (h : visitField g path op value s = .ok (c, s'))
    (hplain : skipsField op value = false → (Subject.field path).Plain g b) : c.WellFormed g b := by
  obtain ⟨values, t, hcond, rfl, _⟩ := visitField_eq_ok h
  refine ⟨?_, ?_⟩
  · rw [pushAll_length]
    exact conditionOf_wellFormed b g.dialect value hcond
  · intro hfield
    apply hplain
    by_contra hskips
    exact conditionOf_skips hcond (by simpa using hskips) hfield

theorem visitNativeField_wellFormed {column : String} {pgCast : PgCast} {value : Json}
    (h : visitNativeField g column pgCast op value s = .ok (c, s')) : c.WellFormed g b := by
  obtain ⟨comparison, hcomparison, rfl, _⟩ := visitNativeField_eq_ok h
  exact ⟨(checked_iff.mp (native_checked b g.dialect pgCast hcomparison)).1, fun _ => trivial⟩

/-! ### Formulas -/

mutual

/-- The conditions of a formula, from left to right. -/
def Formula.leaves {α : Type} : Formula α → List α
  | .leaf a => [a]
  | .and fs => leavesAll fs
  | .or fs => leavesAll fs
  | .not f => f.leaves

def leavesAll {α : Type} : List (Formula α) → List α
  | [] => []
  | f :: fs => f.leaves ++ leavesAll fs

end

section Layout

variable {g : Generator} {b : Bool}

theorem glue_separates (b : Bool) (d : Dialect) :
    [lit "(", lit " AND ", lit " OR ", lit ")"].all (separates (rules b d)) = true ∧
      (settlesText (rules b d) (lit "NOT (") && endsFresh (rules b d) (lit "NOT (")) = true := by
  have hall := of_modes (P := fun r _ => [lit "(", lit " AND ", lit " OR ", lit ")"].all (separates r) &&
    (settlesText r (lit "NOT (") && endsFresh r (lit "NOT ("))) (by decide +kernel) b d
  rwa [Bool.and_eq_true] at hall

theorem Lays.wrap {start stop : List Char} {sql : Sql}
    (hstart : (settlesText (rules b g.dialect) start && endsFresh (rules b g.dialect) start) = true)
    (hstop : separates (rules b g.dialect) stop = true) (h : Lays g b sql) :
    Lays g b (.text start :: sql ++ [.text stop]) := by
  rw [Lays, cons_append, map_cons, map_append]
  exact Laid.wrap hstart hstop h

theorem Lays.join {sep : List Char} (hsep : separates (rules b g.dialect) sep = true) {parts : List Sql}
    (h : ∀ part ∈ parts, Lays g b part) : Lays g b (joinSql sep parts) := by
  rw [Lays, joinSql, joined_map]
  apply Laid.join hsep
  intro part hpart
  obtain ⟨sql, hsql, rfl⟩ := mem_map.mp hpart
  exact h sql hsql

theorem separates_start {cs : List Char} (h : separates (rules b g.dialect) cs = true) :
    (settlesText (rules b g.dialect) cs && endsFresh (rules b g.dialect) cs) = true := by
  simp only [separates, Bool.and_eq_true] at h ⊢
  exact ⟨h.1.1, h.2⟩

theorem constant_lays : Lays g b (constantSql (alwaysTrue g.dialect)) ∧
    Lays g b (constantSql (alwaysFalse g.dialect)) := by
  obtain ⟨d, indexed⟩ := g
  cases d <;> cases b <;> exact ⟨Laid.text rfl, Laid.text rfl⟩

mutual

/-- A formula of well-formed conditions is lexed piece by piece. -/
theorem layout_lays : ∀ (f : Formula Condition), (∀ c ∈ f.leaves, c.WellFormed g b) →
    Lays g b (layout g.dialect f)
  | .leaf c, h => (h c (mem_singleton_self c)).lays
  | .and fs, h => by
    have hglue := all_eq_true.mp (glue_separates b g.dialect).1
    rw [layout]
    split_ifs
    · exact constant_lays.1
    · exact Lays.wrap (separates_start (hglue _ (by simp))) (hglue _ (by simp))
        (Lays.join (hglue _ (by simp)) (layoutAll_lays fs h))
  | .or fs, h => by
    have hglue := all_eq_true.mp (glue_separates b g.dialect).1
    rw [layout]
    split_ifs
    · exact constant_lays.2
    · exact Lays.wrap (separates_start (hglue _ (by simp))) (hglue _ (by simp))
        (Lays.join (hglue _ (by simp)) (layoutAll_lays fs h))
  | .not f, h => by
    obtain ⟨hglue, hnot⟩ := glue_separates b g.dialect
    rw [layout]
    exact Lays.wrap hnot (all_eq_true.mp hglue _ (by simp)) (layout_lays f h)

theorem layoutAll_lays : ∀ (fs : List (Formula Condition)), (∀ c ∈ leavesAll fs, c.WellFormed g b) →
    ∀ sql ∈ layoutAll g.dialect fs, Lays g b sql
  | [], _ => nofun
  | f :: fs, h => by
    intro sql hsql
    rcases mem_cons.mp hsql with rfl | hsql
    · exact layout_lays f fun c hc => h c (mem_append_left _ hc)
    · exact layoutAll_lays fs (fun c hc => h c (mem_append_right _ hc)) sql hsql

end

end Layout

/-! ### Clauses -/

mutual

/-- The paths of the fields a clause renders. -/
def paths : WhereClause → List (List String)
  | .field path op value => if skipsField op value then [] else [path]
  | .and clauses => pathsAll clauses
  | .or clauses => pathsAll clauses
  | .not clause => paths clause
  | .nativeField _ _ _ _ => []

def pathsAll : List WhereClause → List (List String)
  | [] => []
  | clause :: clauses => paths clause ++ pathsAll clauses

end

/-- No path that is rendered as a literal has a backslash, where the database would take it for an escape. -/
def PlainPaths (g : Generator) (b : Bool) (clause : WhereClause) : Prop :=
  b = true → g.dialect = .mysql → ∀ path ∈ paths clause, g.indexes path = false →
    ∀ segment ∈ path, '\\' ∉ segment.toList

theorem mem_intercalate {sep : String} {c : Char}
    (h : c ∈ (String.intercalate sep path).toList) : c ∈ sep.toList ∨ ∃ segment ∈ path, c ∈ segment.toList := by
  induction path with
  | nil => simp at h
  | cons segment path ih =>
    cases path with
    | nil => exact .inr ⟨segment, mem_cons_self .., by simpa using h⟩
    | cons next path =>
      rw [String.intercalate_cons_cons, String.toList_append, String.toList_append, mem_append,
        mem_append] at h
      rcases h with (h | h) | h
      · exact .inr ⟨segment, mem_cons_self .., h⟩
      · exact .inl h
      · rcases ih h with h | ⟨t, ht, h⟩
        · exact .inl h
        · exact .inr ⟨t, mem_cons_of_mem _ ht, h⟩

theorem plainIn_of_segments {d : Dialect}
    (h : b = true → d = .mysql → ∀ segment ∈ path, '\\' ∉ segment.toList) : plainIn b d (pathContent path) := by
  intro hb hd hmem
  rw [pathContent, mem_append] at hmem
  rcases hmem with hmem | hmem
  · revert hmem
    decide
  · rcases mem_intercalate hmem with hmem | ⟨segment, hsegment, hmem⟩
    · revert hmem
      decide
    · exact h hb hd segment hsegment hmem

mutual

theorem conditions_wellFormed {g : Generator} {b : Bool} : ∀ (clause : WhereClause) {s s' : GenState}
    {f : Formula Condition}, conditions g clause s = .ok (f, s') → PlainPaths g b clause →
      ∀ c ∈ f.leaves, c.WellFormed g b
  | .field path op value, s, s', f, h, hplain => by
    simp only [conditions, map_eq_ok, Prod.mk.injEq] at h
    obtain ⟨⟨c, _⟩, hvisit, rfl, _⟩ := h
    intro c' hc'
    obtain rfl := mem_singleton.mp hc'
    apply visitField_wellFormed hvisit
    intro hskips hindexes
    have hpath : path ∈ paths (.field path op value) := by simp [paths, hskips]
    apply plainIn_of_segments
    exact fun hb hd => hplain hb hd path hpath hindexes
  | .nativeField column pgCast op value, s, s', f, h, _ => by
    simp only [conditions, map_eq_ok, Prod.mk.injEq] at h
    obtain ⟨⟨c, _⟩, hvisit, rfl, _⟩ := h
    intro c' hc'
    obtain rfl := mem_singleton.mp hc'
    exact visitNativeField_wellFormed hvisit
  | .and clauses, s, s', f, h, hplain | .or clauses, s, s', f, h, hplain => by
    simp only [conditions, map_eq_ok, Prod.mk.injEq] at h
    obtain ⟨⟨fs, _⟩, hall, rfl, _⟩ := h
    exact conditionsAll_wellFormed clauses hall hplain
  | .not clause, s, s', f, h, hplain => by
    simp only [conditions, map_eq_ok, Prod.mk.injEq] at h
    obtain ⟨⟨f', _⟩, hclause, rfl, _⟩ := h
    have hinner : ∀ c ∈ f'.leaves, c.WellFormed g b := conditions_wellFormed clause hclause hplain
    exact hinner

theorem conditionsAll_wellFormed {g : Generator} {b : Bool} : ∀ (clauses : List WhereClause)
    {s s' : GenState} {fs : List (Formula Condition)}, conditionsAll g clauses s = .ok (fs, s') →
      (b = true → g.dialect = .mysql → ∀ path ∈ pathsAll clauses, g.indexes path = false →
        ∀ segment ∈ path, '\\' ∉ segment.toList) →
      ∀ c ∈ leavesAll fs, c.WellFormed g b
  | [], s, s', fs, h, _ => by
    cases h
    exact nofun
  | clause :: clauses, s, s', fs, h, hplain => by
    simp only [conditionsAll, bind_eq_ok, pure_eq_ok, Prod.mk.injEq] at h
    obtain ⟨⟨f, _⟩, hclause, ⟨fs', _⟩, hclauses, rfl, _⟩ := h
    intro c hc
    rcases mem_append.mp hc with hc | hc
    · exact conditions_wellFormed clause hclause
        (fun hb hd path hpath => hplain hb hd path (mem_append_left _ hpath)) c hc
    · exact conditionsAll_wellFormed clauses hclauses
        (fun hb hd path hpath => hplain hb hd path (mem_append_right _ hpath)) c hc

end

/-- The tokens of generated SQL are those of its pieces. -/
theorem lex_generated {clause : WhereClause}
    {f : Formula Condition} (h : conditions g clause s = .ok (f, s')) (hplain : PlainPaths g b clause) :
    lex (rules b g.dialect) (renderSql g (layout g.dialect f)) =
      (layout g.dialect f).flatMap (Piece.tokens g b) :=
  (layout_lays f (conditions_wellFormed clause h hplain)).lex_eq

end FraiseQL.WhereGenerator
