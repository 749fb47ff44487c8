import FraiseQL.ConditionLexemes

/-!
The grammar of conditions: comparisons and calls, `!` before `&&` before `||`, both joined from the left, and groups,
with a bound on how deep `!` and groups are nested. The grammar also says how a condition with tokens left open is
made up; the language as documented has none. The parser accepts exactly what is derived with or without open tokens,
so that it keeps to the grammar on a text exactly when no condition with an open token is spelled by it.
-/

namespace FraiseQL.ConditionDsl

open Outcome List Option

/-! ### The grammar -/

/-- A text derived at a level, with at most `n` levels of nesting: whether a token in it is left open, how it ends,
and its tree. -/
inductive Derives (alphabet : Alphabet) : Level → Nat → Bool → Ending → List Char → ConditionAst → Prop
  | lexeme {n : Nat} {o : Bool} {e : Ending} {cs : List Char} {t : Token} {ast : ConditionAst}
      (h : Lexeme alphabet o e cs t) (ht : TokenTree t ast) : Derives alphabet .primary n o e cs ast
  | group {n : Nat} {o : Bool} {cs : List Char} {ast : ConditionAst} (h : Derives alphabet .or n o .plain cs ast) :
      Derives alphabet .primary (n + 1) o .plain ('(' :: (cs ++ [')'])) ast
  | primary {n : Nat} {o : Bool} {e : Ending} {cs : List Char} {ast : ConditionAst}
      (h : Derives alphabet .primary n o e cs ast) : Derives alphabet .not n o e cs ast
  | not {n : Nat} {o : Bool} {e : Ending} {cs : List Char} {ast : ConditionAst}
      (h : Derives alphabet .not n o e cs ast) : Derives alphabet .not (n + 1) o e ('!' :: cs) (.not ast)
  | operandAnd {n : Nat} {o : Bool} {e : Ending} {cs : List Char} {ast : ConditionAst}
      (h : Derives alphabet .not n o e cs ast) : Derives alphabet .and n o e cs ast
  | and {n : Nat} {o o' : Bool} {e e' : Ending} {cs ds : List Char} {left right : ConditionAst}
      (h : Derives alphabet .and n o e cs left) (he : e ≠ .quote) (h' : Derives alphabet .not n o' e' ds right) :
      Derives alphabet .and n (o || o') e' (cs ++ '&' :: '&' :: ds) (.and left right)
  | operandOr {n : Nat} {o : Bool} {e : Ending} {cs : List Char} {ast : ConditionAst}
      (h : Derives alphabet .and n o e cs ast) : Derives alphabet .or n o e cs ast
  | or {n : Nat} {o o' : Bool} {e e' : Ending} {cs ds : List Char} {left right : ConditionAst}
      (h : Derives alphabet .or n o e cs left) (he : e ≠ .quote) (h' : Derives alphabet .and n o' e' ds right) :
      Derives alphabet .or n (o || o') e' (cs ++ '|' :: '|' :: ds) (.or left right)
  | before {level : Level} {n : Nat} {o : Bool} {e : Ending} {cs : List Char} {ast : ConditionAst} {c : Char}
      (hc : isBlank c = true) (h : Derives alphabet level n o e cs ast) : Derives alphabet level n o e (c :: cs) ast
  | after {level : Level} {n : Nat} {o : Bool} {e : Ending} {cs : List Char} {ast : ConditionAst} {c : Char}
      (h : Derives alphabet level n o e cs ast) (he : e ≠ .quote) (hc : isBlank c = true) :
      Derives alphabet level n o e (cs ++ [c]) ast

/-- The conditions as documented. -/
def IsCondition (alphabet : Alphabet) (text : String) (ast : ConditionAst) : Prop :=
  Derives alphabet .or maxConditionDepth false .plain text.toList ast

/-- A text that is a condition but for the tokens it leaves open. -/
def LeavesOpen (alphabet : Alphabet) (text : String) : Prop :=
  ∃ e ast, Derives alphabet .or maxConditionDepth true e text.toList ast

/-! ### The lexer over texts -/

section Scanning

variable {alphabet : Alphabet}

variable {c : Char}

theorem isIdentStart_cases (h : isIdentStart alphabet c = true) :
    isBlank c = false ∧ c ≠ '(' ∧ c ≠ ')' ∧ c ≠ '!' ∧ c ≠ '&' ∧ c ≠ '|' ∧ c ≠ '=' := by
  have hident := isIdent_of_isIdentStart h
  have hne : ∀ d : Char, d.toNat < 128 → d.isAlphanum = false → d ≠ '_' → c ≠ d := by
    rintro d hd hplain hunder rfl
    rw [isIdent, not_alphanumeric hd hplain, Bool.false_or, beq_iff_eq] at hident
    exact hunder hident
  refine ⟨?_, hne _ (by decide) (by decide) (by decide), hne _ (by decide) (by decide) (by decide),
    hne _ (by decide) (by decide) (by decide), hne _ (by decide) (by decide) (by decide),
    hne _ (by decide) (by decide) (by decide), hne _ (by decide) (by decide) (by decide)⟩
  rw [Bool.eq_false_iff]
  intro hblank
  rw [isIdent_of_isWhitespace (isWhitespace_of_isBlank hblank)] at hident
  cases hident

/-- What the lexer does at the beginning of a text. -/
inductive Step (alphabet : Alphabet) : List Char → Option Token → List Char → Prop
  | blank {c : Char} {cs : List Char} (hc : isBlank c = true) : Step alphabet (c :: cs) none cs
  | lparen {cs : List Char} : Step alphabet ('(' :: cs) (some .lparen) cs
  | rparen {cs : List Char} : Step alphabet (')' :: cs) (some .rparen) cs
  | not {cs : List Char} (h : cs.head? ≠ some '=') : Step alphabet ('!' :: cs) (some .not) cs
  | and {cs : List Char} : Step alphabet ('&' :: '&' :: cs) (some .and) cs
  | or {cs : List Char} : Step alphabet ('|' :: '|' :: cs) (some .or) cs
  | ident {c : Char} {cs rest : List Char} {t : Token} (hc : isIdentStart alphabet c = true)
      (h : lexIdent alphabet (c :: cs) = .ok (t, rest)) : Step alphabet (c :: cs) (some t) rest

variable {cs rest : List Char} {r : Option Token}

theorem lexChar_eq_ok_iff : lexChar alphabet c cs = .ok (r, rest) ↔ Step alphabet (c :: cs) r rest := by
  constructor
  · intro h
    have htwice : ∀ d : Char, cs.head? = some d → cs = d :: cs.tail := by
      intro d hd
      cases cs with
      | nil => cases hd
      | cons d' cs =>
        obtain rfl := some.inj hd
        rfl
    rw [lexChar] at h
    split_ifs at h with hblank hl hr hnot heq hand hand2 hor hor2 hident
    · cases h
      exact .blank hblank
    · cases h
      subst hl
      exact .lparen
    · cases h
      subst hr
      exact .rparen
    · cases h
      subst hnot
      exact .not heq
    · cases h
      subst hand
      rw [htwice _ hand2]
      exact .and
    · cases h
      subst hor
      rw [htwice _ hor2]
      exact .or
    · obtain ⟨⟨t, more⟩, ht, heq⟩ := map_eq_ok.mp h
      cases heq
      exact .ident hident ht
  · intro h
    cases h with
    | blank hc => rw [lexChar, if_pos hc]
    | lparen => rfl
    | rparen => rfl
    | not hhead =>
      show (if cs.head? = some '=' then _ else _) = _
      rw [if_neg hhead]
    | and => rfl
    | or => rfl
    | ident hc hlex =>
      obtain ⟨hblank, h1, h2, h3, h4, h5, -⟩ := isIdentStart_cases hc
      rw [lexChar, if_neg (by simp [hblank]), if_neg h1, if_neg h2, if_neg h3, if_neg h4, if_neg h5, if_pos hc, hlex]
      rfl

theorem Step.unique {rest' : List Char} {r' : Option Token} (h : Step alphabet cs r rest)
    (h' : Step alphabet cs r' rest') : r = r' ∧ rest = rest' := by
  cases cs with
  | nil => cases h
  | cons c cs =>
    have heq := (lexChar_eq_ok_iff.mpr h).symm.trans (lexChar_eq_ok_iff.mpr h')
    exact Prod.mk.inj (Except.ok.inj heq)

theorem length_dropWhile_le (p : Char → Bool) (cs : List Char) : (cs.dropWhile p).length ≤ cs.length :=
  (dropWhile_suffix p).length_le

theorem length_afterQuote (cs : List Char) : (afterQuote cs).length ≤ cs.length := by
  have hle := length_dropWhile_le notQuote cs
  rw [afterQuote, length_drop]
  omega

theorem length_takeArgs {left : Nat} {args : List String} (h : takeArgs left cs = .ok (args, rest)) :
    rest.length ≤ cs.length := by
  induction left generalizing cs args with
  | zero =>
    have hle := length_dropWhile_le RustText.isWhitespace cs
    rw [takeArgs] at h
    split at h
    · cases h
    · cases h
      exact hle
  | succ left ih =>
    have hle : (skipWhitespace cs).length ≤ cs.length := length_dropWhile_le _ cs
    rw [takeArgs] at h
    split at h
    · rename_i x hx
      have hquote := length_afterQuote x
      have hskip : (skipWhitespace (afterQuote x)).length ≤ (afterQuote x).length := length_dropWhile_le _ _
      rw [hx, length_cons] at hle
      simp only at h
      split at h
      · rename_i y hy
        obtain ⟨⟨args', more⟩, hr, heq⟩ := map_eq_ok.mp h
        obtain ⟨rfl, rfl⟩ := Prod.mk.inj heq
        have hrest := ih hr
        rw [hy, length_cons] at hskip
        omega
      · rename_i y hy
        cases h
        rw [hy, length_cons] at hskip
        omega
      · cases h
        omega
    · cases h
      exact hle

theorem length_takeValue (cs : List Char) : (takeValue alphabet cs).2.length ≤ cs.length := by
  by_cases hquote : cs.head? = some '\''
  · cases cs with
    | nil => cases hquote
    | cons c x =>
      obtain rfl := some.inj hquote
      rw [(takeValue_quote x).1]
      exact (length_afterQuote x).trans (Nat.le_succ _)
  · rw [takeValue_bare hquote]
    exact length_dropWhile_le _ cs

/-- Every step takes a character. -/
theorem Step.shrinks (h : Step alphabet cs r rest) : rest.length < cs.length := by
  cases h with
  | blank => simp
  | lparen => simp
  | rparen => simp
  | not => simp
  | and => simp only [length_cons]; omega
  | or => simp only [length_cons]; omega
  | @ident c cs _ t hc hlex =>
    have hident : ((c :: cs).dropWhile (isIdent alphabet)).length ≤ cs.length := by
      rw [dropWhile_cons_of_pos (isIdent_of_isIdentStart hc)]
      exact length_dropWhile_le _ cs
    have hskip : (skipWhitespace ((c :: cs).dropWhile (isIdent alphabet))).length ≤ _ := length_dropWhile_le _ _
    rw [length_cons]
    rw [lexIdent] at hlex
    split at hlex
    · rename_i x hx
      obtain ⟨r, hr, heq⟩ := map_eq_ok.mp hlex
      have hargs := length_takeArgs hr
      cases heq
      rw [hx, length_cons] at hskip
      omega
    · simp only at hlex
      split at hlex
      · obtain ⟨-, rfl⟩ := Prod.mk.inj (Except.ok.inj hlex)
        generalize skipWhitespace ((c :: cs).dropWhile (isIdent alphabet)) = x at hskip ⊢
        have hop := length_dropWhile_le isOperator x
        have hafter : (skipWhitespace (x.dropWhile isOperator)).length ≤ _ := length_dropWhile_le _ _
        have hvalue : (takeValue alphabet (skipWhitespace (x.dropWhile isOperator))).2.length ≤ _ :=
          length_takeValue _
        omega
      · cases hlex

/-- Whether a text begins with a token that is left open. -/
def openAt (alphabet : Alphabet) (cs : List Char) : Bool :=
  cs.head?.any (isIdentStart alphabet) && lexemeOpen alphabet cs

/-- The tokens of a text, and whether one of them is left open. -/
inductive Scans (alphabet : Alphabet) : List Char → List Token → Bool → Prop
  | nil : Scans alphabet [] [] false
  | skip {cs rest : List Char} {ts : List Token} {o : Bool} (h : Step alphabet cs none rest)
      (hrest : Scans alphabet rest ts o) : Scans alphabet cs ts o
  | token {cs rest : List Char} {t : Token} {ts : List Token} {o : Bool} (h : Step alphabet cs (some t) rest)
      (hrest : Scans alphabet rest ts o) : Scans alphabet cs (t :: ts) (openAt alphabet cs || o)

variable {ts : List Token} {o : Bool}

theorem Scans.unique {ts' : List Token} {o' : Bool} (h : Scans alphabet cs ts o)
    (h' : Scans alphabet cs ts' o') : ts = ts' ∧ o = o' := by
  induction h generalizing ts' o' with
  | nil =>
    cases h' with
    | nil => exact ⟨rfl, rfl⟩
    | skip hstep => cases hstep
    | token hstep => cases hstep
  | skip hstep _ ih =>
    cases h' with
    | nil => cases hstep
    | skip hstep' hrest' =>
      obtain ⟨-, rfl⟩ := hstep.unique hstep'
      exact ih hrest'
    | token hstep' => exact nomatch (hstep.unique hstep').1
  | token hstep _ ih =>
    cases h' with
    | nil => cases hstep
    | skip hstep' => exact nomatch (hstep.unique hstep').1
    | token hstep' hrest' =>
      obtain ⟨htoken, rfl⟩ := hstep.unique hstep'
      obtain rfl := some.inj htoken
      obtain ⟨rfl, rfl⟩ := ih hrest'
      exact ⟨rfl, rfl⟩

/-- The loop of the lexer, with rounds enough. -/
theorem tokenizeFrom_eq_ok_iff {rounds : Nat} (h : cs.length ≤ rounds) :
    tokenizeFrom alphabet rounds cs = .ok ts ↔ ∃ o, Scans alphabet cs ts o := by
  induction rounds generalizing cs ts with
  | zero =>
    obtain rfl := length_eq_zero_iff.mp (Nat.le_zero.mp h)
    constructor
    · intro hok
      cases hok
      exact ⟨false, .nil⟩
    · rintro ⟨o, hscans⟩
      obtain ⟨rfl, -⟩ := hscans.unique .nil
      rfl
  | succ rounds ih =>
    cases cs with
    | nil =>
      constructor
      · intro hok
        cases hok
        exact ⟨false, .nil⟩
      · rintro ⟨o, hscans⟩
        obtain ⟨rfl, -⟩ := hscans.unique .nil
        rfl
    | cons c cs =>
      rw [tokenizeFrom]
      constructor
      · intro hok
        split at hok
        · cases hok
        · rename_i rest hlex
          have hstep := lexChar_eq_ok_iff.mp hlex
          have hshrinks := hstep.shrinks
          obtain ⟨o, hscans⟩ := (ih (by omega)).mp hok
          exact ⟨o, .skip hstep hscans⟩
        · rename_i t rest hlex
          have hstep := lexChar_eq_ok_iff.mp hlex
          have hshrinks := hstep.shrinks
          obtain ⟨us, hus, rfl⟩ := map_eq_ok.mp hok
          obtain ⟨o, hscans⟩ := (ih (by omega)).mp hus
          exact ⟨_, .token hstep hscans⟩
      · rintro ⟨o, hscans⟩
        cases hscans with
        | skip hstep hrest =>
          have hshrinks := hstep.shrinks
          rw [lexChar_eq_ok_iff.mpr hstep]
          exact (ih (by omega)).mpr ⟨_, hrest⟩
        | token hstep hrest =>
          have hshrinks := hstep.shrinks
          have hok := (ih (by omega)).mpr ⟨_, hrest⟩
          rw [lexChar_eq_ok_iff.mpr hstep]
          simp only [hok]
          rfl

variable {ast : ConditionAst}

theorem parse_eq_ok_iff_scans {text : String} (h : RustText.byteLength text.toList ≤ maxConditionInputBytes) :
    parse alphabet text = .ok ast ↔
      ∃ ts o, Scans alphabet text.toList ts o ∧ Phrase .or maxConditionDepth ts ast := by
  rw [parse, tokenize, if_neg (Nat.not_lt.mpr h)]
  constructor
  · intro hok
    split at hok
    · cases hok
    · rename_i ts hts
      obtain ⟨o, hscans⟩ := (tokenizeFrom_eq_ok_iff (Nat.le_refl _)).mp hts
      exact ⟨ts, o, hscans, parseTokens_eq_ok_iff.mp hok⟩
  · rintro ⟨ts, o, hscans, hphrase⟩
    rw [(tokenizeFrom_eq_ok_iff (Nat.le_refl _)).mpr ⟨o, hscans⟩]
    exact parseTokens_eq_ok_iff.mpr hphrase

/-! ### What is derived is read -/

theorem Scans.after_blanks {us : List Token} (h : Scans alphabet rest us o) :
    Scans alphabet (skipBlanks rest) us o := by
  induction rest with
  | nil => exact h
  | cons c rest ih =>
    cases hblank : isBlank c with
    | true =>
      have hskip : skipBlanks (c :: rest) = skipBlanks rest :=
        dropWhile_cons_of_pos hblank
      rw [hskip]
      cases h with
      | skip hstep hrest =>
        obtain ⟨-, rfl⟩ := hstep.unique (.blank hblank)
        exact ih hrest
      | token hstep => exact nomatch (hstep.unique (.blank hblank)).1
    | false =>
      have hskip : skipBlanks (c :: rest) = c :: rest := dropWhile_cons_of_neg (by simp [hblank])
      rw [hskip]
      exact h

variable {e : Ending} {t : Token}

theorem Lexeme.head (h : Lexeme alphabet o e cs t) : ∃ c x, cs = c :: x ∧ isIdentStart alphabet c = true := by
  have hword : ∀ {w x : List Char}, IsIdentifier alphabet w → ∃ c y, w ++ x = c :: y ∧ isIdentStart alphabet c = true := by
    intro w x hw
    obtain ⟨c, hc, hstart⟩ := hw.starts
    cases w with
    | nil => cases hc
    | cons d w =>
      obtain rfl := some.inj hc
      exact ⟨d, _, rfl, hstart⟩
  cases h with
  | comparison hw => exact hword hw
  | call hw => exact hword hw
  | openCall hw => exact hword hw

variable {level : Level} {n : Nat}

/-- What is derived begins with no equals sign. -/
theorem Derives.head (h : Derives alphabet level n o e cs ast) : ∃ c x, cs = c :: x ∧ c ≠ '=' := by
  have hfirst : ∀ {as bs : List Char}, (∃ c x, as = c :: x ∧ c ≠ '=') → ∃ c x, as ++ bs = c :: x ∧ c ≠ '=' := by
    rintro as bs ⟨c, x, rfl, hc⟩
    exact ⟨c, x ++ bs, rfl, hc⟩
  induction h with
  | lexeme h _ =>
    obtain ⟨c, x, rfl, hc⟩ := h.head
    exact ⟨c, x, rfl, (isIdentStart_cases hc).2.2.2.2.2.2⟩
  | group => exact ⟨_, _, rfl, by decide⟩
  | not => exact ⟨_, _, rfl, by decide⟩
  | primary _ ih => exact ih
  | operandAnd _ ih => exact ih
  | operandOr _ ih => exact ih
  | and _ _ _ ih => exact hfirst ih
  | or _ _ _ ih => exact hfirst ih
  | before hc =>
    refine ⟨_, _, rfl, ?_⟩
    rcases isBlank_cases hc with rfl | rfl | rfl | rfl <;> decide
  | after _ _ _ ih => exact hfirst ih

theorem Follow.of_operator (he : e ≠ .quote) (hc : c = '&' ∨ c = '|') (rest : List Char) : Follow e (c :: rest) := by
  have hskip : skipBlanks (c :: rest) = c :: rest := by
    apply dropWhile_cons_of_neg
    rcases hc with rfl | rfl <;> decide
  cases e with
  | plain =>
    intro d hd
    rw [hskip] at hd
    obtain rfl := some.inj hd
    exact .inr hc
  | call =>
    intro d hd
    rw [hskip] at hd
    obtain rfl := some.inj hd
    exact hc
  | quote => exact absurd rfl he

theorem Follow.of_blank (he : e ≠ .quote) (hc : isBlank c = true) (h : Follow e rest) : Follow e (c :: rest) := by
  have hskip : skipBlanks (c :: rest) = skipBlanks rest := dropWhile_cons_of_pos hc
  cases e with
  | plain | call =>
    intro d hd
    rw [hskip] at hd
    exact h d hd
  | quote => exact absurd rfl he

/-- A text that is followed as its ending allows is read as a phrase, and what follows it by itself. -/
theorem Derives.scans
    (h : Derives alphabet level n o e cs ast) : ∃ ts, Phrase level n ts ast ∧ ∀ {rest us o'}, Follow e rest →
      Scans alphabet rest us o' → Scans alphabet (cs ++ rest) (ts ++ us) (o || o') := by
  induction h with
  | @lexeme n o e cs t ast h ht =>
    refine ⟨[t], .token ht, ?_⟩
    intro rest us o' hfollow hscans
    have hargs : ∀ name args, t = .function name args → args.length ≤ maxConditionFunctionArgs := by
      rintro name args rfl
      exact ht.args_length.2.trans (by decide)
    obtain ⟨rest', hlex, hresumes, hopen⟩ := lexIdent_complete h hargs hfollow
    obtain ⟨c, x, rfl, hc⟩ := h.head
    have hat : openAt alphabet (c :: x ++ rest) = o := by
      rw [openAt, hopen, cons_append, head?_cons, any_some, hc, Bool.true_and]
    have hrest : Scans alphabet rest' us o' := by
      rcases hresumes with rfl | rfl
      · exact hscans
      · exact hscans.after_blanks
    rw [← hat]
    exact .token (.ident hc hlex) hrest
  | @group n o cs ast _ ih =>
    obtain ⟨ts, hphrase, hts⟩ := ih
    refine ⟨_, .group hphrase, ?_⟩
    intro rest us o' _ hscans
    have hfollow : Follow .plain (')' :: rest) := by
      intro c hc
      obtain rfl := some.inj hc
      exact .inl rfl
    have hinner := hts hfollow (.token .rparen hscans)
    have hall := Scans.token .lparen hinner
    simpa [openAt, isIdentStart, alphabet.ascii_alphabetic] using hall
  | primary _ ih =>
    obtain ⟨ts, hphrase, hts⟩ := ih
    exact ⟨ts, .primary hphrase, hts⟩
  | @not n o e cs ast h ih =>
    obtain ⟨ts, hphrase, hts⟩ := ih
    refine ⟨_, .not hphrase, ?_⟩
    intro rest us o' hfollow hscans
    have hhead : (cs ++ rest).head? ≠ some '=' := by
      obtain ⟨c, x, rfl, hc⟩ := h.head
      simpa using hc
    have hall := Scans.token (.not hhead) (hts hfollow hscans)
    simpa [openAt, isIdentStart, alphabet.ascii_alphabetic] using hall
  | operandAnd _ ih =>
    obtain ⟨ts, hphrase, hts⟩ := ih
    exact ⟨ts, .operandAnd hphrase, hts⟩
  | @and n o o' e e' cs ds left right _ he _ ihleft ihright =>
    obtain ⟨ts, hphrase, hts⟩ := ihleft
    obtain ⟨us, hphrase', hus⟩ := ihright
    refine ⟨_, .and hphrase hphrase', ?_⟩
    intro rest vs o'' hfollow hscans
    have hall := hts (.of_operator he (.inl rfl) _) (.token .and (hus hfollow hscans))
    simpa [openAt, isIdentStart, alphabet.ascii_alphabetic, Bool.or_assoc] using hall
  | operandOr _ ih =>
    obtain ⟨ts, hphrase, hts⟩ := ih
    exact ⟨ts, .operandOr hphrase, hts⟩
  | @or n o o' e e' cs ds left right _ he _ ihleft ihright =>
    obtain ⟨ts, hphrase, hts⟩ := ihleft
    obtain ⟨us, hphrase', hus⟩ := ihright
    refine ⟨_, .or hphrase hphrase', ?_⟩
    intro rest vs o'' hfollow hscans
    have hall := hts (.of_operator he (.inr rfl) _) (.token .or (hus hfollow hscans))
    simpa [openAt, isIdentStart, alphabet.ascii_alphabetic, Bool.or_assoc] using hall
  | before hc _ ih =>
    obtain ⟨ts, hphrase, hts⟩ := ih
    exact ⟨ts, hphrase, fun hfollow hscans => .skip (.blank hc) (hts hfollow hscans)⟩
  | @after level n o e cs ast c _ he hc ih =>
    obtain ⟨ts, hphrase, hts⟩ := ih
    refine ⟨ts, hphrase, ?_⟩
    intro rest us o' hfollow hscans
    rw [append_assoc]
    exact hts (.of_blank he hc hfollow) (.skip (.blank hc) hscans)

/-! ### What is read is derived -/

variable {bs : List Char}

theorem Derives.blanks_before (hbs : ∀ c ∈ bs, isBlank c = true) (h : Derives alphabet level n o e cs ast) :
    Derives alphabet level n o e (bs ++ cs) ast := by
  induction bs with
  | nil => exact h
  | cons c bs ih =>
    exact .before (hbs c mem_cons_self) (ih fun d hd => hbs d (mem_cons_of_mem _ hd))

theorem Derives.blanks_after
    (h : Derives alphabet level n o e cs ast) (he : e ≠ .quote) (hbs : ∀ c ∈ bs, isBlank c = true) :
    Derives alphabet level n o e (cs ++ bs) ast := by
  induction bs generalizing cs with
  | nil => rwa [append_nil]
  | cons c bs ih =>
    have hnext := ih (h.after he (hbs c mem_cons_self)) fun d hd => hbs d (mem_cons_of_mem _ hd)
    rwa [append_assoc] at hnext

/-- The first token of a text stands behind blanks. -/
theorem Scans.next (h : Scans alphabet cs (t :: ts) o) :
    ∃ bs x rest o', (∀ c ∈ bs, isBlank c = true) ∧ cs = bs ++ x ∧ Step alphabet x (some t) rest ∧
      Scans alphabet rest ts o' := by
  generalize hall : t :: ts = all at h
  induction h with
  | nil => cases hall
  | skip hstep _ ih =>
    cases hstep with
    | @blank c cs hc =>
      obtain ⟨bs, x, rest, o', hbs, rfl, hnext, hrest⟩ := ih hall
      exact ⟨c :: bs, x, rest, o', forall_mem_cons.mpr ⟨hc, hbs⟩, rfl, hnext, hrest⟩
  | token hstep hrest _ =>
    obtain ⟨rfl, rfl⟩ := List.cons.inj hall
    exact ⟨[], _, _, _, nofun, rfl, hstep, hrest⟩

/-- A text without tokens is blank. -/
theorem Scans.blanks (h : Scans alphabet cs [] o) : ∀ c ∈ cs, isBlank c = true := by
  generalize hall : ([] : List Token) = all at h
  induction h with
  | nil => exact nofun
  | skip hstep _ ih =>
    cases hstep with
    | blank hc => exact forall_mem_cons.mpr ⟨hc, ih hall⟩
  | token => cases hall

/-- The texts of the tokens that are always spelled alike. -/
def Token.symbol : Token → Option (List Char)
  | .and => some ['&', '&']
  | .or => some ['|', '|']
  | .not => some ['!']
  | .lparen => some ['(']
  | .rparen => some [')']
  | .comparison _ _ _ | .function _ _ => none

theorem lexIdent_symbol (h : lexIdent alphabet cs = .ok (t, rest)) : t.symbol = none := by
  rw [lexIdent] at h
  split at h
  · obtain ⟨r, -, heq⟩ := map_eq_ok.mp h
    obtain ⟨rfl, -⟩ := Prod.mk.inj heq
    rfl
  · simp only at h
    split at h
    · obtain ⟨rfl, -⟩ := Prod.mk.inj (Except.ok.inj h)
      rfl
    · cases h

theorem Scans.symbol {text : List Char} (ht : t.symbol = some text) (h : Scans alphabet cs (t :: ts) o) :
    ∃ bs rest o', (∀ c ∈ bs, isBlank c = true) ∧ cs = bs ++ (text ++ rest) ∧ Scans alphabet rest ts o' := by
  obtain ⟨bs, x, rest, o', hbs, rfl, hstep, hrest⟩ := h.next
  refine ⟨bs, rest, o', hbs, ?_, hrest⟩
  cases hstep with
  | ident _ hlex =>
    rw [lexIdent_symbol hlex] at ht
    cases ht
  | lparen => cases ht; rfl
  | rparen => cases ht; rfl
  | not => cases ht; rfl
  | and => cases ht; rfl
  | or => cases ht; rfl

/-- What an operator follows ends in no quote. -/
theorem Leaves.not_quote (h : Leaves e (bs ++ c :: rest)) : e ≠ .quote := by
  rintro rfl
  exact absurd h (by simp [Leaves])

/-- What a closing parenthesis follows ends in nothing left open. -/
theorem Leaves.plain (hbs : ∀ c ∈ bs, isBlank c = true) (h : Leaves e (bs ++ ')' :: rest)) : e = .plain := by
  cases e with
  | plain => rfl
  | call =>
    have hskip : skipBlanks (bs ++ ')' :: rest) = ')' :: rest := (span_stop hbs (by simp [isBlank])).2
    rw [Leaves, hskip] at h
    exact absurd rfl h
  | quote => exact absurd rfl h.not_quote

/-- What is read as a phrase is derived, up to where the text of the phrase ends. -/
theorem Phrase.derives (h : Phrase level n ts ast) :
    ∀ {cs us o}, Scans alphabet cs (ts ++ us) o → ∃ o₁ o₂ e pre rest, cs = pre ++ rest ∧
      Derives alphabet level n o₁ e pre ast ∧ Leaves e rest ∧ Scans alphabet rest us o₂ := by
  induction h with
  | @token n t ast ht =>
    intro cs us o hscans
    obtain ⟨bs, x, rest, o', hbs, rfl, hstep, hrest⟩ := hscans.next
    have hident : ∃ c y, x = c :: y ∧ isIdentStart alphabet c = true ∧ lexIdent alphabet x = .ok (t, rest) := by
      cases hstep with
      | ident hc hlex => exact ⟨_, _, rfl, hc, hlex⟩
      | lparen => cases ht
      | rparen => cases ht
      | not => cases ht
      | and => cases ht
      | or => cases ht
    obtain ⟨c, y, rfl, hc, hlex⟩ := hident
    have hargs : ∀ name, t ≠ .function name [] := by
      rintro name rfl
      exact absurd ht.args_length.1 (Nat.lt_irrefl 0)
    obtain ⟨o₁, e, text, htext, hlexeme, hleaves⟩ := lexIdent_sound ⟨c, rfl, hc⟩ hlex hargs
    refine ⟨o₁, o', e, bs ++ text, rest, ?_, .blanks_before hbs (.lexeme hlexeme ht), hleaves, hrest⟩
    rw [htext, append_assoc]
  | group _ ih =>
    intro cs us o hscans
    rw [cons_append, append_assoc] at hscans
    obtain ⟨bs, rest, o', hbs, rfl, hrest⟩ := hscans.symbol rfl
    obtain ⟨o₁, o₂, e, pre, behind, rfl, hderives, hleaves, hclose⟩ := ih hrest
    obtain ⟨bs', rest', o₃, hbs', rfl, hrest'⟩ := hclose.symbol rfl
    obtain rfl := hleaves.plain hbs'
    have hgroup := (hderives.blanks_after (by simp) hbs').group
    refine ⟨o₁, o₃, .plain, _, rest', ?_, .blanks_before hbs hgroup, trivial, hrest'⟩
    simp only [append_assoc, cons_append, nil_append]
  | primary _ ih =>
    intro cs us o hscans
    obtain ⟨o₁, o₂, e, pre, rest, hcs, hderives, hleaves, hrest⟩ := ih hscans
    exact ⟨o₁, o₂, e, pre, rest, hcs, .primary hderives, hleaves, hrest⟩
  | not _ ih =>
    intro cs us o hscans
    obtain ⟨bs, rest, o', hbs, rfl, hrest⟩ := hscans.symbol rfl
    obtain ⟨o₁, o₂, e, pre, behind, rfl, hderives, hleaves, hbehind⟩ := ih hrest
    refine ⟨o₁, o₂, e, _, behind, ?_, .blanks_before hbs (.not hderives), hleaves, hbehind⟩
    simp only [append_assoc, cons_append, nil_append]
  | operandAnd _ ih =>
    intro cs us o hscans
    obtain ⟨o₁, o₂, e, pre, rest, hcs, hderives, hleaves, hrest⟩ := ih hscans
    exact ⟨o₁, o₂, e, pre, rest, hcs, .operandAnd hderives, hleaves, hrest⟩
  | and _ _ ihleft ihright =>
    intro cs us o hscans
    rw [append_assoc] at hscans
    obtain ⟨o₁, o₂, e, pre, rest, rfl, hleft, hleaves, hoperator⟩ := ihleft hscans
    obtain ⟨bs, rest', o₃, hbs, rfl, hrest⟩ := hoperator.symbol rfl
    obtain ⟨o₄, o₅, e', pre', behind, rfl, hright, hleaves', hbehind⟩ := ihright hrest
    have he := hleaves.not_quote
    refine ⟨_, o₅, e', _, behind, ?_, .and (hleft.blanks_after he hbs) he hright, hleaves', hbehind⟩
    simp only [append_assoc, cons_append, nil_append]
  | operandOr _ ih =>
    intro cs us o hscans
    obtain ⟨o₁, o₂, e, pre, rest, hcs, hderives, hleaves, hrest⟩ := ih hscans
    exact ⟨o₁, o₂, e, pre, rest, hcs, .operandOr hderives, hleaves, hrest⟩
  | or _ _ ihleft ihright =>
    intro cs us o hscans
    rw [append_assoc] at hscans
    obtain ⟨o₁, o₂, e, pre, rest, rfl, hleft, hleaves, hoperator⟩ := ihleft hscans
    obtain ⟨bs, rest', o₃, hbs, rfl, hrest⟩ := hoperator.symbol rfl
    obtain ⟨o₄, o₅, e', pre', behind, rfl, hright, hleaves', hbehind⟩ := ihright hrest
    have he := hleaves.not_quote
    refine ⟨_, o₅, e', _, behind, ?_, .or (hleft.blanks_after he hbs) he hright, hleaves', hbehind⟩
    simp only [append_assoc, cons_append, nil_append]

/-- A derived text is read as a whole, and its tokens tell whether one is left open. -/
theorem Derives.scans_all
    (h : Derives alphabet level n o e cs ast) : ∃ ts, Phrase level n ts ast ∧ Scans alphabet cs ts o := by
  obtain ⟨ts, hphrase, hscans⟩ := h.scans
  have hfollow : Follow e [] := by
    cases e with
    | plain => exact nofun
    | call => exact nofun
    | quote => rfl
  have hall := hscans hfollow .nil
  rw [append_nil, append_nil, Bool.or_false] at hall
  exact ⟨ts, hphrase, hall⟩

/-- The texts that are read are those that are derived. -/
theorem scans_iff_derives : (∃ ts o, Scans alphabet cs ts o ∧ Phrase .or maxConditionDepth ts ast) ↔
      ∃ o e, Derives alphabet .or maxConditionDepth o e cs ast := by
  constructor
  · rintro ⟨ts, o, hscans, hphrase⟩
    rw [← append_nil ts] at hscans
    obtain ⟨o₁, o₂, e, pre, rest, rfl, hderives, hleaves, hrest⟩ := hphrase.derives hscans
    by_cases he : e = .quote
    · subst he
      obtain rfl : rest = [] := hleaves
      rw [append_nil]
      exact ⟨_, _, hderives⟩
    · exact ⟨_, _, hderives.blanks_after he hrest.blanks⟩
  · rintro ⟨o, e, hderives⟩
    obtain ⟨ts, hphrase, hscans⟩ := hderives.scans_all
    exact ⟨ts, o, hscans, hphrase⟩

/-- Only a text with a token left open ends in one. -/
theorem Derives.plain (h : Derives alphabet level n o e cs ast) (ho : o = false) : e = .plain := by
  induction h with
  | lexeme h _ =>
    cases h with
    | comparison _ _ _ _ hvalue =>
      cases hvalue with
      | quoted => rfl
      | bare => rfl
      | missing => rfl
      | unterminated => cases ho
    | call => rfl
    | openCall => cases ho
  | group => rfl
  | primary _ ih => exact ih ho
  | not _ ih => exact ih ho
  | operandAnd _ ih => exact ih ho
  | and _ _ _ _ ih => exact ih (Bool.or_eq_false_iff.mp ho).2
  | operandOr _ ih => exact ih ho
  | or _ _ _ _ ih => exact ih (Bool.or_eq_false_iff.mp ho).2
  | before _ _ ih => exact ih ho
  | after _ _ _ ih => exact ih ho

end Scanning

/-! ### The parser and the grammar -/

section Main

variable {alphabet : Alphabet} {text : String} {ast : ConditionAst}

theorem parse_eq_ok_iff (h : RustText.byteLength text.toList ≤ maxConditionInputBytes) :
    parse alphabet text = .ok ast ↔ ∃ o e, Derives alphabet .or maxConditionDepth o e text.toList ast :=
  (parse_eq_ok_iff_scans h).trans scans_iff_derives

theorem IsCondition.not_leavesOpen (h : IsCondition alphabet text ast) : ¬ LeavesOpen alphabet text := by
  rintro ⟨e, ast', hopen⟩
  obtain ⟨ts, -, hscans⟩ := Derives.scans_all h
  obtain ⟨ts', -, hscans'⟩ := hopen.scans_all
  exact nomatch (hscans.unique hscans').2

/-- The parser accepts the conditions of the grammar, with their trees and nothing else, exactly on the texts that are
no condition with a token left open. -/
theorem parse_condition_iff (h : RustText.byteLength text.toList ≤ maxConditionInputBytes) :
    (∀ ast, parse alphabet text = .ok ast ↔ IsCondition alphabet text ast) ↔ ¬ LeavesOpen alphabet text := by
  constructor
  · rintro hall ⟨e, ast, hopen⟩
    exact ((hall ast).mp ((parse_eq_ok_iff h).mpr ⟨_, _, hopen⟩)).not_leavesOpen ⟨e, ast, hopen⟩
  · intro hclosed ast
    rw [parse_eq_ok_iff h]
    constructor
    · rintro ⟨o, e, hderives⟩
      cases o with
      | true => exact absurd ⟨e, ast, hderives⟩ hclosed
      | false =>
        obtain rfl := hderives.plain rfl
        exact hderives
    · intro hcondition
      exact ⟨_, _, hcondition⟩

theorem parse_condition_quoted :
    parse asciiAlphabet "!(status != 'on hold')" = .ok (.not (.comparison "status" "!=" "on hold")) := by
  have hident : IsIdentifier asciiAlphabet "status".toList := ⟨⟨_, rfl, by decide⟩, all_eq_true.mp (by decide)⟩
  have hspace : Spaces [' '] := by simp [Spaces, RustText.isWhitespace]
  have hunquoted : Unquoted "on hold".toList := by simp [Unquoted, notQuote]
  have hop : "!=" ∈ operators := by decide
  have hlexeme := Lexeme.comparison hident hspace hop hspace (.quoted hunquoted)
  have hcondition : IsCondition asciiAlphabet "!(status != 'on hold')"
      (.not (.comparison "status" "!=" "on hold")) :=
    .operandOr (.operandAnd (.not (.primary (.group (.operandOr (.operandAnd (.primary
      (.lexeme hlexeme (.comparison _ _ _)))))))))
  exact ((parse_condition_iff (by decide)).mpr hcondition.not_leavesOpen _).mpr hcondition

/-- A call without its closing parenthesis is accepted. -/
theorem parse_open_call : ¬ ∀ ast, parse asciiAlphabet "has_field('x'" = .ok ast ↔
    IsCondition asciiAlphabet "has_field('x'" ast := by
  have hident : IsIdentifier asciiAlphabet "has_field".toList := ⟨⟨_, rfl, by decide⟩, all_eq_true.mp (by decide)⟩
  have hunquoted : Unquoted ['x'] := by simp [Unquoted, notQuote]
  have hnone : Spaces [] := List.forall_mem_nil _
  have hargs : ArgsText .call ['\'', 'x', '\''] ["x"] := .last hnone hunquoted hnone
  have hopen : LeavesOpen asciiAlphabet "has_field('x'" :=
    ⟨.call, _, .operandOr (.operandAnd (.primary (.lexeme (.openCall hident hnone hargs) (.hasField "x"))))⟩
  intro hall
  have hparse : parse asciiAlphabet "has_field('x'" = .ok (.hasField "x") := rfl
  exact ((hall _).mp hparse).not_leavesOpen hopen

end Main

end FraiseQL.ConditionDsl
