import FraiseQL.Dialect

/-! The tokens of what the dialects render: placeholders, quoted identifiers and JSON paths. A quoted text is
read back as it was written, except that MySQL in its default mode takes a backslash inside a path literal
for an escape. -/

namespace FraiseQL.Dialect

open SqlLex

/-! ### Placeholders -/

theorem run_placeholder {r : Rules} (cs : List Char)
    (h : ∀ c ∈ cs, (isWordChar c && r.continues c) = true) (start : List Char) :
    run r (.placeholder start) cs = (.placeholder (start ++ cs), []) := by
  induction cs generalizing start with
  | nil => rw [run, List.append_nil]
  | cons c cs ih =>
    have hstep : step r (.placeholder start) c = (.placeholder (start ++ [c]), []) :=
      if_pos (h c (List.mem_cons_self ..))
    rw [run, hstep, ih fun c hc => h c (List.mem_cons_of_mem _ hc), List.append_assoc]
    rfl

theorem isWordChar_of_isDigit {c : Char} (h : c.isDigit = true) : isWordChar c = true := by
  simp [isWordChar, Char.isAlphanum, h]

theorem placeholder_lexes (b : Bool) (d : Dialect) (n : Nat) :
    Lexes (rules b d) (placeholder n d) [.placeholder (placeholder n d)] false := by
  have hdigits : ∀ c ∈ Nat.toDigits 10 n, c.isDigit = true :=
    fun c hc => Nat.isDigit_of_mem_toDigits (by decide) (by decide) hc
  have hrun : run (rules b d) .start (placeholder n d) = (.placeholder (placeholder n d), []) := by
    cases d with
    | postgres =>
      have h := run_placeholder (r := rules b .postgres) (Nat.toDigits 10 n)
        (fun c hc => by simp [isWordChar_of_isDigit (hdigits c hc), rules, hdigits c hc]) ['$']
      exact h
    | mysql => cases b <;> rfl
    | sqlite => rfl
    | sqlserver =>
      have h := run_placeholder (r := rules b .sqlserver) ('p' :: Nat.toDigits 10 n) (by
        intro c hc
        rcases List.mem_cons.mp hc with rfl | hc
        · rfl
        · simp [isWordChar_of_isDigit (hdigits c hc), rules]) ['@']
      exact h
  refine ⟨?_, ?_, nofun⟩
  · rw [hrun]
    rfl
  · rw [lex, hrun]
    rfl

/-! ### Quoted text -/

theorem quote_lexes {r : Rules} {q : Quote} {content : List Char} (hq : q ∈ r.quotes)
    (hopen : step r .start q.opener = (.quoted q [], [])) (hplain : q ∈ r.escapes → '\\' ∉ content) :
    Lexes r (quote q content) [.quoted q content] false := by
  have hrun := run_quote content hplain hopen
  refine ⟨?_, ?_, nofun⟩
  · rw [hrun]
    exact decide_eq_true hq
  · rw [lex, hrun]
    rfl

theorem quoteIdentifier_lexes (b : Bool) (d : Dialect) (name : List Char) :
    Lexes (rules b d) (quoteIdentifier d name) [.quoted d.identifierQuote name] false := by
  apply quote_lexes
  · cases d <;> simp [rules, identifierQuote]
  · cases d <;> cases b <;> rfl
  · cases d <;> cases b <;> simp [rules, identifierQuote]

/-- A backslash in the path means itself in a literal of the database. -/
def plainIn (b : Bool) (d : Dialect) (cs : List Char) : Prop := b = true → d = .mysql → '\\' ∉ cs

variable {b : Bool} {d : Dialect}

theorem literal_lexes {content : List Char} (hplain : plainIn b d content) :
    Lexes (rules b d) (quote .single content) [.quoted .single content] false := by
  apply quote_lexes
  · cases d <;> simp [rules]
  · cases d <;> cases b <;> rfl
  · intro hescape
    apply hplain
    · revert hescape
      cases d <;> cases b <;> decide
    · revert hescape
      cases d <;> cases b <;> decide

/-! ### JSON paths -/

def postgresPathTokens : List String → List Token
  | [] => []
  | [segment] => [.op (lit "->>"), .quoted .single segment.toList]
  | segment :: rest => .op (lit "->") :: .quoted .single segment.toList :: postgresPathTokens rest

/-- The text between the parentheses of an extraction function. -/
def pathContent (path : List String) : List Char := lit "$." ++ (String.intercalate "." path).toList

/-- The tokens of an extraction function around the path. -/
def aroundPath (before after : List Char) (b : Bool) (d : Dialect) (path : List String) : List Token :=
  lex (rules b d) before ++ .quoted .single (pathContent path) :: lex (rules b d) after

/-- The tokens of `json_extract_scalar`. -/
def jsonExtractTokens (b : Bool) (path : List String) : Dialect → List Token
  | .postgres => .word (lit "data") :: postgresPathTokens path
  | .mysql => aroundPath (lit "JSON_UNQUOTE(JSON_EXTRACT(data, ") (lit "))") b .mysql path
  | .sqlite => aroundPath (lit "json_extract(data, ") (lit ")") b .sqlite path
  | .sqlserver => aroundPath (lit "JSON_VALUE(data, ") (lit ")") b .sqlserver path

theorem aroundPath_lexes {before after : List Char} {path : List String}
    (hbefore : settlesText (rules b d) before = true) (hfresh : endsFresh (rules b d) before = true)
    (hafter : settlesText (rules b d) after = true) (hopens : opens (rules b d) after = true)
    (hplain : plainIn b d (pathContent path)) :
    Lexes (rules b d) (before ++ (jsonPathLiteral path ++ after)) (aroundPath before after b d path)
      (endsFresh (rules b d) after) := by
  have hliteral := (literal_lexes hplain).append (lexes_text hafter) (.inr hopens)
  exact (lexes_text hbefore).append hliteral (.inl hfresh)

/-- A mode after which the arrow of a path segment is a token of its own. -/
def BeforeArrow (r : Rules) (m : Mode) : Prop :=
  settled r m = true ∧ step r m '-' = (.op ['-'], flush m)

theorem segment_run {m : Mode} (hm : BeforeArrow (rules b .postgres) m) {arrow : List Char}
    (harrow : arrow = lit "->" ∨ arrow = lit "->>") (segment : List Char) :
    run (rules b .postgres) m (arrow ++ quote .single segment) =
      (.closing .single segment, flush m ++ [.op arrow]) := by
  have hops : run (rules b .postgres) (.op ['-']) arrow.tail = (.op arrow, []) := by
    rcases harrow with rfl | rfl <;> rfl
  have hhead : arrow = '-' :: arrow.tail := by
    rcases harrow with rfl | rfl <;> rfl
  have hrun : run (rules b .postgres) m arrow = (.op arrow, flush m) := by
    rw [hhead, run, hm.2, hops, ← hhead, List.append_nil]
  have hopen : step (rules b .postgres) (.op arrow) Quote.single.opener = (.quoted .single [], [.op arrow]) :=
    rfl
  have hplain : Quote.single ∈ (rules b .postgres).escapes → '\\' ∉ segment := by simp [rules]
  rw [run_append, hrun, run_quote segment hplain hopen]

theorem postgresPath_run (path : List String) {m : Mode} (hm : BeforeArrow (rules b .postgres) m) :
    settled (rules b .postgres) (run (rules b .postgres) m (postgresPath path)).1 = true ∧
      (run (rules b .postgres) m (postgresPath path)).2 ++
        flush (run (rules b .postgres) m (postgresPath path)).1 = flush m ++ postgresPathTokens path := by
  induction path generalizing m with
  | nil =>
    refine ⟨hm.1, ?_⟩
    simp [run, postgresPath, postgresPathTokens]
  | cons segment rest ih =>
    cases rest with
    | nil =>
      rw [postgresPath, segment_run hm (.inr rfl)]
      refine ⟨rfl, ?_⟩
      rw [List.append_assoc]
      rfl
    | cons next rest =>
      have hclosing : BeforeArrow (rules b .postgres) (.closing .single segment.toList) := ⟨rfl, rfl⟩
      obtain ⟨hsettled, htokens⟩ := ih hclosing
      rw [postgresPath, run_append, segment_run hm (.inl rfl)]
      · refine ⟨hsettled, ?_⟩
        rw [List.append_assoc, htokens, List.append_assoc]
        rfl
      · exact List.cons_ne_nil _ _

theorem jsonExtractScalar_lexes {path : List String} (hplain : plainIn b d (pathContent path)) :
    Lexes (rules b d) (jsonExtractScalar path d) (jsonExtractTokens b path d) false := by
  cases d with
  | postgres =>
    have hdata : BeforeArrow (rules b .postgres) (.word (lit "data")) := ⟨rfl, rfl⟩
    obtain ⟨hsettled, htokens⟩ := postgresPath_run path hdata
    have hrun : run (rules b .postgres) .start (lit "data") = (.word (lit "data"), []) := rfl
    refine ⟨?_, ?_, nofun⟩
    · rw [jsonExtractScalar, run_append, hrun]
      exact hsettled
    · rw [lex, jsonExtractScalar, run_append, hrun]
      exact htokens
  | mysql =>
    rw [jsonExtractScalar, List.append_assoc]
    cases b with
    | false | true => exact (aroundPath_lexes rfl rfl rfl rfl hplain).unfresh
  | sqlite | sqlserver =>
    rw [jsonExtractScalar, List.append_assoc]
    exact (aroundPath_lexes rfl rfl rfl rfl hplain).unfresh

end FraiseQL.Dialect
