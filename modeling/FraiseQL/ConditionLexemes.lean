import FraiseQL.ConditionParser
import Mathlib.Data.List.TakeWhile

/-!
The texts of the tokens that begin with an identifier. A comparison has its value and a call its closing parenthesis,
but the lexer also takes texts that leave them open: a quote without its end, a call without its parenthesis, an
operator without a value. What may follow such a text depends on how it ends. The lexer reads every text that is
followed so, and what it reads is such a text.
-/

namespace FraiseQL.ConditionDsl

open List Except Prod

open RustText (isWhitespace)

/-! ### Texts of tokens -/

/-- How a text ends: in a call or in a quote that is left open, or neither. -/
inductive Ending where
  | plain | call | quote
  deriving DecidableEq

section Texts

variable (alphabet : Alphabet)

structure IsIdentifier (w : List Char) : Prop where
  starts : ∃ c ∈ w.head?, isIdentStart alphabet c = true
  continues : ∀ c ∈ w, isIdent alphabet c = true

def Spaces (ws : List Char) : Prop := ∀ c ∈ ws, isWhitespace c = true

def Unquoted (cs : List Char) : Prop := ∀ c ∈ cs, notQuote c = true

/-- The values of comparisons, the last two of them left open. -/
inductive ValueText : Bool → Ending → List Char → List Char → Prop
  | quoted {v : List Char} (h : Unquoted v) : ValueText false .plain ('\'' :: (v ++ ['\''])) v
  | bare {v : List Char} (hne : v ≠ []) (h : ∀ c ∈ v, isBare alphabet c = true) : ValueText false .plain v v
  | missing : ValueText true .plain [] []
  | unterminated {v : List Char} (h : Unquoted v) : ValueText true .quote ('\'' :: v) v

/-- Quoted arguments with commas between them, up to the closing parenthesis; in the last two cases a comma or a
quote is left open. -/
inductive ArgsText : Ending → List Char → List String → Prop
  | last {before after a : List Char} (hbefore : Spaces before) (ha : Unquoted a) (hafter : Spaces after) :
      ArgsText .call (before ++ '\'' :: (a ++ '\'' :: after)) [String.ofList a]
  | more {before after a cs : List Char} {e : Ending} {args : List String} (hbefore : Spaces before) (ha : Unquoted a)
      (hafter : Spaces after) (hargs : ArgsText e cs args) :
      ArgsText e (before ++ '\'' :: (a ++ '\'' :: (after ++ ',' :: cs))) (String.ofList a :: args)
  | comma {before after a behind : List Char} (hbefore : Spaces before) (ha : Unquoted a) (hafter : Spaces after)
      (hbehind : Spaces behind) :
      ArgsText .plain (before ++ '\'' :: (a ++ '\'' :: (after ++ ',' :: behind))) [String.ofList a]
  | unterminated {before a : List Char} (hbefore : Spaces before) (ha : Unquoted a) :
      ArgsText .quote (before ++ '\'' :: a) [String.ofList a]

/-- The texts of comparisons and calls: whether they are left open, and how they end. -/
inductive Lexeme : Bool → Ending → List Char → Token → Prop
  | comparison {w before after text value : List Char} {op : String} {o : Bool} {e : Ending}
      (hw : IsIdentifier alphabet w) (hbefore : Spaces before) (hop : op ∈ operators) (hafter : Spaces after)
      (hvalue : ValueText alphabet o e text value) :
      Lexeme o e (w ++ (before ++ (op.toList ++ (after ++ text))))
        (.comparison (String.ofList w) op (String.ofList value))
  | call {w before cs : List Char} {args : List String} (hw : IsIdentifier alphabet w) (hbefore : Spaces before)
      (hargs : ArgsText .call cs args) :
      Lexeme false .plain (w ++ (before ++ '(' :: (cs ++ [')']))) (.function (String.ofList w) args)
  | openCall {w before cs : List Char} {args : List String} {e : Ending} (hw : IsIdentifier alphabet w)
      (hbefore : Spaces before) (hargs : ArgsText e cs args) :
      Lexeme true e (w ++ (before ++ '(' :: cs)) (.function (String.ofList w) args)

/-- The text without the blanks before it. -/
def skipBlanks (cs : List Char) : List Char := cs.dropWhile isBlank

/-- What may follow a text within a condition: a closing parenthesis or an operator, except that an open call takes
the parenthesis and an open quote everything. -/
def Follow : Ending → List Char → Prop
  | .plain, rest => ∀ c ∈ (skipBlanks rest).head?, c = ')' ∨ c = '&' ∨ c = '|'
  | .call, rest => ∀ c ∈ (skipBlanks rest).head?, c = '&' ∨ c = '|'
  | .quote, rest => rest = []

/-- What the lexer leaves after a text. -/
def Leaves : Ending → List Char → Prop
  | .plain, _ => True
  | .call, rest => (skipBlanks rest).head? ≠ some ')'
  | .quote, rest => rest = []

/-! ### Tokens left open -/

def valueOpen : List Char → Bool
  | '\'' :: rest => rest.all notQuote
  | c :: _ => !isBare alphabet c
  | [] => true

def argsOpen : Nat → List Char → Bool
  | left, cs =>
    match skipWhitespace cs with
    | '\'' :: rest =>
      match left with
      | 0 => true
      | left + 1 =>
        if rest.all notQuote then true
        else match skipWhitespace (afterQuote rest) with
          | ',' :: rest => argsOpen left rest
          | ')' :: _ => false
          | _ => true
    | _ => true

/-- Whether the token at the beginning of a text is left open. -/
def lexemeOpen (cs : List Char) : Bool :=
  match skipWhitespace (cs.dropWhile (isIdent alphabet)) with
  | '(' :: rest => argsOpen maxConditionFunctionArgs rest
  | rest => valueOpen alphabet (skipWhitespace (rest.dropWhile isOperator))

end Texts

/-! ### Runs of characters -/

section Runs

variable {x : List Char}

theorem span_stop {p : Char → Bool} {w : List Char} (hw : ∀ c ∈ w, p c = true) (hx : ∀ c ∈ x.head?, p c = false) :
    (w ++ x).takeWhile p = w ∧ (w ++ x).dropWhile p = x := by
  rw [takeWhile_append_of_pos hw, dropWhile_append_of_pos hw]
  cases x with
  | nil => exact ⟨append_nil _, rfl⟩
  | cons c x =>
    have hc := hx c rfl
    rw [takeWhile_cons_of_neg (by simp [hc]), dropWhile_cons_of_neg (by simp [hc])]
    exact ⟨append_nil _, rfl⟩

theorem head_dropWhile {p : Char → Bool} {cs : List Char} : ∀ c ∈ (cs.dropWhile p).head?, p c = false := by
  intro c hc
  have hnot := head?_dropWhile_not p cs
  rw [Option.mem_def] at hc
  rw [hc] at hnot
  simpa using hnot

theorem skipWhitespace_append {ws : List Char} (hws : Spaces ws) (hx : ∀ c ∈ x.head?, isWhitespace c = false) :
    skipWhitespace (ws ++ x) = x := (span_stop hws hx).2

theorem skipWhitespace_self (hx : ∀ c ∈ x.head?, isWhitespace c = false) : skipWhitespace x = x := by
  have hnil : Spaces [] := nofun
  exact skipWhitespace_append hnil hx

/-- What stands before the text that is left of the white space. -/
theorem skipWhitespace_split (cs : List Char) : ∃ ws, Spaces ws ∧ cs = ws ++ skipWhitespace cs :=
  ⟨cs.takeWhile isWhitespace, fun _ hc => mem_takeWhile_imp hc, takeWhile_append_dropWhile.symm⟩

theorem quotedText_closed {v : List Char} (hv : Unquoted v) :
    quotedText (v ++ '\'' :: x) = v ∧ afterQuote (v ++ '\'' :: x) = x := by
  obtain ⟨htake, hdrop⟩ := span_stop (x := '\'' :: x) hv (by simp [notQuote])
  refine ⟨htake, ?_⟩
  rw [afterQuote, hdrop]
  rfl

theorem quotedText_open {v : List Char} (hv : Unquoted v) : quotedText v = v ∧ afterQuote v = [] := by
  have hspan := span_stop (x := []) hv nofun
  rw [append_nil] at hspan
  refine ⟨hspan.1, ?_⟩
  rw [afterQuote, hspan.2]
  rfl

/-- A text after an opening quote either has the closing one or is the content as a whole. -/
theorem quoted_cases (cs : List Char) : Unquoted (quotedText cs) ∧
    ((cs.all notQuote = true ∧ quotedText cs = cs ∧ afterQuote cs = []) ∨
      (cs.all notQuote = false ∧ cs = quotedText cs ++ '\'' :: afterQuote cs)) := by
  refine ⟨fun c hc => mem_takeWhile_imp hc, ?_⟩
  cases hall : cs.all notQuote with
  | true =>
    obtain ⟨htext, hafter⟩ := quotedText_open (all_eq_true.mp hall)
    exact .inl ⟨rfl, htext, hafter⟩
  | false =>
    refine .inr ⟨rfl, ?_⟩
    have hsplit : cs = quotedText cs ++ cs.dropWhile notQuote := takeWhile_append_dropWhile.symm
    cases hdrop : cs.dropWhile notQuote with
    | nil =>
      rw [hdrop, append_nil] at hsplit
      have hquoted : ∀ c ∈ cs, notQuote c = true := by
        intro c hc
        rw [hsplit] at hc
        exact mem_takeWhile_imp hc
      rw [all_eq_true.mpr hquoted] at hall
      cases hall
    | cons c rest =>
      have hc : c = '\'' := by
        have hhead : notQuote c = false := head_dropWhile c (by rw [hdrop]; rfl)
        simpa [notQuote] using hhead
      have hafter : afterQuote cs = rest := by
        rw [afterQuote, hdrop]
        rfl
      rw [hdrop, hc] at hsplit
      rw [hafter]
      exact hsplit

end Runs

/-! ### Classes of characters -/

section Characters

variable {alphabet : Alphabet}

variable {c : Char}

theorem not_alphanumeric (hc : c.toNat < 128) (h : c.isAlphanum = false) : alphabet.isAlphanumeric c = false := by
  rw [alphabet.ascii_alphanumeric c hc, h]

theorem isBlank_cases (h : isBlank c = true) : c = ' ' ∨ c = '\t' ∨ c = '\n' ∨ c = '\r' := by
  simpa [isBlank, or_assoc] using h

theorem isOperator_cases (h : isOperator c = true) : c = '=' ∨ c = '!' ∨ c = '>' ∨ c = '<' := by
  simpa [isOperator, or_assoc] using h

theorem isWhitespace_of_isBlank (h : isBlank c = true) : isWhitespace c = true := by
  rcases isBlank_cases h with rfl | rfl | rfl | rfl <;> decide

theorem isOperator_of_isWhitespace (h : isWhitespace c = true) : isOperator c = false := by
  rw [Bool.eq_false_iff]
  intro hop
  rcases isOperator_cases hop with rfl | rfl | rfl | rfl <;> revert h <;> decide

theorem isWhitespace_of_isOperator (h : isOperator c = true) : isWhitespace c = false := by
  rcases isOperator_cases h with rfl | rfl | rfl | rfl <;> decide

theorem isIdent_of_isOperator (h : isOperator c = true) : isIdent alphabet c = false := by
  rw [isIdent]
  rcases isOperator_cases h with rfl | rfl | rfl | rfl <;> rw [not_alphanumeric (by decide) (by decide)] <;> rfl

theorem isIdent_of_isWhitespace (h : isWhitespace c = true) : isIdent alphabet c = false := by
  have hne : c ≠ '_' := by
    rintro rfl
    revert h
    decide
  rw [isIdent, alphabet.whitespace_not_alphanumeric c h, Bool.false_or, beq_eq_false_iff_ne]
  exact hne

theorem isIdent_paren : isIdent alphabet '(' = false := by
  rw [isIdent, not_alphanumeric (by decide) (by decide)]
  rfl

theorem isIdent_of_isIdentStart (h : isIdentStart alphabet c = true) : isIdent alphabet c = true := by
  rw [isIdentStart, Bool.or_eq_true] at h
  rw [isIdent, Bool.or_eq_true]
  exact h.imp_left (alphabet.alphanumeric_of_alphabetic c)

theorem isBare_of_isWhitespace (h : isWhitespace c = true) : isBare alphabet c = false := by
  have hne : c ≠ '.' ∧ c ≠ '-' := by
    constructor
    · rintro rfl
      revert h
      decide
    · rintro rfl
      revert h
      decide
  simp [isBare, alphabet.whitespace_not_alphanumeric c h, hne.1, hne.2]

theorem isBare_of_isOperator (h : isOperator c = true) : isBare alphabet c = false := by
  rw [isBare]
  rcases isOperator_cases h with rfl | rfl | rfl | rfl <;> rw [not_alphanumeric (by decide) (by decide)] <;> rfl

/-- The characters a value without quotes ends before. -/
theorem isBare_of_follows (h : c = ')' ∨ c = '&' ∨ c = '|' ∨ c = '\'') : isBare alphabet c = false := by
  rw [isBare]
  rcases h with rfl | rfl | rfl | rfl <;> rw [not_alphanumeric (by decide) (by decide)] <;> rfl

theorem isWhitespace_of_follows (h : c = ')' ∨ c = '&' ∨ c = '|') : isWhitespace c = false := by
  rcases h with rfl | rfl | rfl <;> decide

theorem operators_spec {op : String} (h : op ∈ operators) :
    (∀ c ∈ op.toList, isOperator c = true) ∧ op.toList ≠ [] := by
  simp only [operators, mem_cons, not_mem_nil, or_false] at h
  rcases h with rfl | rfl | rfl | rfl | rfl | rfl <;> exact ⟨all_eq_true.mp (by decide), by decide⟩

end Characters

/-! ### What follows a text -/

section Following

variable {alphabet : Alphabet} {rest : List Char}

theorem Follow.plain {e : Ending} (h : Follow e rest) : Follow .plain rest := by
  cases e with
  | plain => exact h
  | call => exact fun c hc => .inr (h c hc)
  | quote =>
    obtain rfl : rest = [] := h
    exact nofun

theorem skipBlanks_eq (h : Follow .plain rest) : skipWhitespace rest = skipBlanks rest := by
  have hsplit : rest = rest.takeWhile isBlank ++ skipBlanks rest := takeWhile_append_dropWhile.symm
  have hspaces : Spaces (rest.takeWhile isBlank) :=
    fun c hc => isWhitespace_of_isBlank (mem_takeWhile_imp hc)
  calc skipWhitespace rest
    _ = skipWhitespace (rest.takeWhile isBlank ++ skipBlanks rest) := congrArg skipWhitespace hsplit
    _ = skipBlanks rest := skipWhitespace_append hspaces fun c hc => isWhitespace_of_follows (h c hc)

/-- The first character of what follows. -/
theorem Follow.head (h : Follow .plain rest) : ∀ c ∈ rest.head?, isWhitespace c = true ∨ c = ')' ∨ c = '&' ∨ c = '|' := by
  intro c hc
  cases hblank : isBlank c with
  | true => exact .inl (isWhitespace_of_isBlank hblank)
  | false =>
    cases rest with
    | nil => cases hc
    | cons d rest =>
      obtain rfl := Option.some.inj hc
      have hskip : skipBlanks (d :: rest) = d :: rest := dropWhile_cons_of_neg (by simp [hblank])
      exact .inr (h d (by rw [hskip]; rfl))

theorem skipWhitespace_spaces {ws : List Char} (hws : Spaces ws) (x : List Char) :
    skipWhitespace (ws ++ x) = skipWhitespace x := dropWhile_append_of_pos hws

end Following

/-! ### Reading a text that is followed as it ends -/

section Complete

variable {alphabet : Alphabet} {rest : List Char}

/-- What the lexer goes on with: what follows, or that without the blanks before it. -/
def Resumes (rest rest' : List Char) : Prop := rest' = rest ∨ rest' = skipBlanks rest

variable {before : List Char}

theorem takeArgs_arg {a : List Char} (left : Nat) (hbefore : Spaces before) (ha : Unquoted a) (x : List Char) :
    takeArgs (left + 1) (before ++ '\'' :: (a ++ '\'' :: x)) = (match skipWhitespace x with
      | ',' :: rest => (takeArgs left rest).map fun r => (String.ofList a :: r.1, r.2)
      | ')' :: rest => .ok ([String.ofList a], rest)
      | rest => .ok ([String.ofList a], rest)) := by
  obtain ⟨htext, hafter⟩ := quotedText_closed (x := x) ha
  rw [takeArgs, skipWhitespace_append hbefore (by simp [isWhitespace])]
  simp only [htext, hafter]
  all_goals rfl

theorem argsOpen_arg {a : List Char} (left : Nat) (hbefore : Spaces before) (ha : Unquoted a) (x : List Char) :
    argsOpen (left + 1) (before ++ '\'' :: (a ++ '\'' :: x)) = (match skipWhitespace x with
      | ',' :: rest => argsOpen left rest
      | ')' :: _ => false
      | _ => true) := by
  obtain ⟨-, hafter⟩ := quotedText_closed (x := x) ha
  have hquote : (a ++ '\'' :: x).all notQuote = false := by simp [notQuote]
  rw [argsOpen, skipWhitespace_append hbefore (by simp [isWhitespace])]
  simp only [hquote, hafter, Bool.false_eq_true, if_false]

variable {cs : List Char}

/-- Without a quote there is no argument. -/
theorem takeArgs_stop (left : Nat) (h : (skipWhitespace cs).head? ≠ some '\'') :
    takeArgs left cs = .ok ([], skipWhitespace cs) ∧ argsOpen left cs = true := by
  rw [takeArgs, argsOpen]
  cases hskip : skipWhitespace cs with
  | nil => exact ⟨rfl, rfl⟩
  | cons c rest =>
    have hc : c ≠ '\'' := by
      rintro rfl
      rw [hskip] at h
      exact h rfl
    constructor
    · split
      · rename_i heq
        exact absurd (cons.inj heq).1 hc
      · rfl
    · split
      · rename_i heq
        exact absurd (cons.inj heq).1 hc
      · rfl

variable {e : Ending}

theorem takeArgs_closed {args : List String} (h : ArgsText e cs args) (he : e = .call)
    {left : Nat} (hleft : args.length ≤ left) (x : List Char) :
    takeArgs left (cs ++ ')' :: x) = .ok (args, x) ∧ argsOpen left (cs ++ ')' :: x) = false := by
  induction h generalizing left with
  | @last before after a hbefore ha hafter =>
    obtain ⟨left, rfl⟩ : ∃ k, left = k + 1 := ⟨left - 1, by simp at hleft; omega⟩
    have hskip : skipWhitespace (after ++ ')' :: x) = ')' :: x := skipWhitespace_append hafter (by simp [isWhitespace])
    simp only [append_assoc, cons_append]
    rw [takeArgs_arg left hbefore ha, argsOpen_arg left hbefore ha, hskip]
    exact ⟨rfl, rfl⟩
  | @more before after a cs e args hbefore ha hafter _ ih =>
    obtain ⟨left, rfl⟩ : ∃ k, left = k + 1 := ⟨left - 1, by simp at hleft; omega⟩
    have hskip : skipWhitespace (after ++ ',' :: (cs ++ ')' :: x)) = ',' :: (cs ++ ')' :: x) :=
      skipWhitespace_append hafter (by simp [isWhitespace])
    obtain ⟨hargs, hopen⟩ := ih he (by simp at hleft; omega)
    simp only [append_assoc, cons_append]
    rw [takeArgs_arg left hbefore ha, argsOpen_arg left hbefore ha, hskip]
    simp only [hargs, hopen]
    exact ⟨rfl, trivial⟩
  | comma => cases he
  | unterminated => cases he

theorem takeArgs_open {args : List String} (h : ArgsText e cs args)
    (hfollow : Follow e rest) {left : Nat} (hleft : args.length ≤ left) :
    ∃ rest', takeArgs left (cs ++ rest) = .ok (args, rest') ∧ Resumes rest rest' ∧
      argsOpen left (cs ++ rest) = true := by
  have hblanks := skipBlanks_eq hfollow.plain
  induction h generalizing left with
  | @last before after a hbefore ha hafter =>
    obtain ⟨left, rfl⟩ : ∃ k, left = k + 1 := ⟨left - 1, by simp at hleft; omega⟩
    refine ⟨skipBlanks rest, ?_, .inr rfl, ?_⟩
    · simp only [append_assoc, cons_append]
      rw [takeArgs_arg left hbefore ha, skipWhitespace_spaces hafter, hblanks]
      cases hskip : skipBlanks rest with
      | nil => rfl
      | cons c x =>
        have hc := hfollow c (by rw [hskip]; rfl)
        rcases hc with rfl | rfl <;> rfl
    · simp only [append_assoc, cons_append]
      rw [argsOpen_arg left hbefore ha, skipWhitespace_spaces hafter, hblanks]
      cases hskip : skipBlanks rest with
      | nil => rfl
      | cons c x =>
        have hc := hfollow c (by rw [hskip]; rfl)
        rcases hc with rfl | rfl <;> rfl
  | @more before after a cs e args hbefore ha hafter _ ih =>
    obtain ⟨left, rfl⟩ : ∃ k, left = k + 1 := ⟨left - 1, by simp at hleft; omega⟩
    have hskip : skipWhitespace (after ++ ',' :: (cs ++ rest)) = ',' :: (cs ++ rest) :=
      skipWhitespace_append hafter (by simp [isWhitespace])
    obtain ⟨rest', hargs, hresumes, hopen⟩ := ih hfollow (by simp at hleft; omega)
    refine ⟨rest', ?_, hresumes, ?_⟩
    · simp only [append_assoc, cons_append]
      rw [takeArgs_arg left hbefore ha, hskip]
      simp only [hargs]
      rfl
    · simp only [append_assoc, cons_append]
      rw [argsOpen_arg left hbefore ha, hskip]
      exact hopen
  | @comma before after a behind hbefore ha hafter hbehind =>
    obtain ⟨left, rfl⟩ : ∃ k, left = k + 1 := ⟨left - 1, by simp at hleft; omega⟩
    have hskip : skipWhitespace (after ++ ',' :: (behind ++ rest)) = ',' :: (behind ++ rest) :=
      skipWhitespace_append hafter (by simp [isWhitespace])
    have hbehindSkip : skipWhitespace (behind ++ rest) = skipBlanks rest := by
      rw [skipWhitespace_spaces hbehind, hblanks]
    have hstop : (skipWhitespace (behind ++ rest)).head? ≠ some '\'' := by
      rw [hbehindSkip]
      intro hquote
      rcases hfollow '\'' hquote with h | h | h <;> cases h
    obtain ⟨hargs, hopen⟩ := takeArgs_stop left hstop
    rw [hbehindSkip] at hargs
    refine ⟨skipBlanks rest, ?_, .inr rfl, ?_⟩
    · simp only [append_assoc, cons_append]
      rw [takeArgs_arg left hbefore ha, hskip]
      simp only [hargs]
      rfl
    · simp only [append_assoc, cons_append]
      rw [argsOpen_arg left hbefore ha, hskip]
      exact hopen
  | @unterminated before a hbefore ha =>
    obtain ⟨left, rfl⟩ : ∃ k, left = k + 1 := ⟨left - 1, by simp at hleft; omega⟩
    obtain rfl : rest = [] := hfollow
    obtain ⟨htext, hafter⟩ := quotedText_open ha
    have hall : a.all notQuote = true := all_eq_true.mpr ha
    have hskip : skipWhitespace (before ++ '\'' :: a) = '\'' :: a :=
      skipWhitespace_append hbefore (by simp [isWhitespace])
    refine ⟨[], ?_, .inl rfl, ?_⟩
    · rw [append_nil, takeArgs, hskip]
      simp only [htext, hafter]
      rfl
    · rw [append_nil, argsOpen, hskip]
      simp only [hall, if_true]

/-- A bare value ends before what may follow it. -/
theorem isBare_of_follow (h : Follow .plain rest) : ∀ c ∈ rest.head?, isBare alphabet c = false := by
  intro c hc
  rcases h.head c hc with hspace | rfl | rfl | rfl
  · exact isBare_of_isWhitespace hspace
  · exact isBare_of_follows (.inl rfl)
  · exact isBare_of_follows (.inr (.inl rfl))
  · exact isBare_of_follows (.inr (.inr (.inl rfl)))

theorem takeValue_quote (cs : List Char) :
    takeValue alphabet ('\'' :: cs) = (String.ofList (quotedText cs), afterQuote cs) ∧
      valueOpen alphabet ('\'' :: cs) = cs.all notQuote := ⟨rfl, rfl⟩

theorem takeValue_bare (h : cs.head? ≠ some '\'') : takeValue alphabet cs =
      (String.ofList (cs.takeWhile (isBare alphabet)), cs.dropWhile (isBare alphabet)) := by
  cases cs with
  | nil => rfl
  | cons c cs =>
    rw [takeValue]
    rintro rest heq
    rw [heq] at h
    exact h rfl

theorem valueOpen_bare {c : Char} (cs : List Char) (h : c ≠ '\'') :
    valueOpen alphabet (c :: cs) = !isBare alphabet c := by
  rw [valueOpen]
  exact h

variable {o : Bool}

theorem takeValue_complete {text value : List Char} (h : ValueText alphabet o e text value) (hfollow : Follow e rest) :
    ∃ rest', takeValue alphabet (skipWhitespace (text ++ rest)) = (String.ofList value, rest') ∧ Resumes rest rest' ∧
      valueOpen alphabet (skipWhitespace (text ++ rest)) = o := by
  cases h with
  | quoted hv =>
    obtain ⟨htext, hafter⟩ := quotedText_closed (x := rest) hv
    have hskip : skipWhitespace ('\'' :: (value ++ ['\'']) ++ rest) = '\'' :: (value ++ '\'' :: rest) := by
      rw [cons_append, append_assoc]
      exact skipWhitespace_self (by simp [isWhitespace])
    have hquote : (value ++ '\'' :: rest).all notQuote = false := by simp [notQuote]
    rw [hskip, (takeValue_quote _).1, (takeValue_quote _).2, htext, hafter]
    exact ⟨rest, rfl, .inl rfl, hquote⟩
  | bare hne hv =>
    obtain ⟨c, v, rfl⟩ := exists_cons_of_ne_nil hne
    have hc := hv c mem_cons_self
    have hspace : isWhitespace c = false := by
      rw [Bool.eq_false_iff]
      intro hspace
      rw [isBare_of_isWhitespace hspace] at hc
      cases hc
    have hquote : c ≠ '\'' := by
      rintro rfl
      rw [isBare_of_follows (.inr (.inr (.inr rfl)))] at hc
      cases hc
    have hskip : skipWhitespace (c :: v ++ rest) = c :: v ++ rest :=
      skipWhitespace_self (by simpa using hspace)
    obtain ⟨htake, hdrop⟩ := span_stop hv (isBare_of_follow hfollow)
    rw [hskip, takeValue_bare (by simpa using hquote), htake, hdrop]
    refine ⟨rest, rfl, .inl rfl, ?_⟩
    rw [cons_append, valueOpen_bare _ hquote, hc]
    rfl
  | missing =>
    rw [nil_append, skipBlanks_eq hfollow]
    have hstop : ∀ c ∈ (skipBlanks rest).head?, isBare alphabet c = false := by
      intro c hc
      exact isBare_of_follows ((hfollow c hc).imp_right (·.imp_right .inl))
    obtain ⟨htake, hdrop⟩ := span_stop (w := []) nofun hstop
    have hquote : (skipBlanks rest).head? ≠ some '\'' := by
      intro hquote
      rcases hfollow _ hquote with h | h | h <;> cases h
    rw [nil_append] at htake hdrop
    rw [takeValue_bare hquote, htake, hdrop]
    refine ⟨_, rfl, .inr rfl, ?_⟩
    cases hskip : skipBlanks rest with
    | nil => rfl
    | cons c x =>
      rw [hskip] at hstop hquote
      rw [valueOpen_bare x (by simpa using hquote), hstop c rfl]
      rfl
  | unterminated hv =>
    obtain rfl : rest = [] := hfollow
    obtain ⟨htext, hafter⟩ := quotedText_open hv
    have hskip : skipWhitespace ('\'' :: value ++ []) = '\'' :: value := by
      rw [append_nil]
      exact skipWhitespace_self (by simp [isWhitespace])
    rw [hskip, (takeValue_quote _).1, (takeValue_quote _).2, htext, hafter]
    exact ⟨[], rfl, .inl rfl, all_eq_true.mpr hv⟩

variable {w : List Char}

/-- An identifier ends before white space, a parenthesis or an operator. -/
theorem ident_span {x : List Char} (hw : ∀ c ∈ w, isIdent alphabet c = true) (hbefore : Spaces before)
    (hx : ∀ c ∈ x.head?, isIdent alphabet c = false) :
    (w ++ (before ++ x)).takeWhile (isIdent alphabet) = w ∧
      (w ++ (before ++ x)).dropWhile (isIdent alphabet) = before ++ x := by
  apply span_stop hw
  intro c hc
  cases before with
  | nil => exact hx c hc
  | cons d before =>
    obtain rfl := Option.some.inj hc
    exact isIdent_of_isWhitespace (hbefore d mem_cons_self)

/-- A value begins with no operator. -/
theorem value_head {text value after : List Char} (h : ValueText alphabet o e text value)
    (hafter : Spaces after) (hfollow : Follow e rest) : ∀ c ∈ (after ++ (text ++ rest)).head?, isOperator c = false := by
  intro c hc
  cases after with
  | cons d after =>
    obtain rfl := Option.some.inj hc
    exact isOperator_of_isWhitespace (hafter d mem_cons_self)
  | nil =>
    rw [nil_append] at hc
    cases h with
    | quoted hv =>
      obtain rfl := Option.some.inj hc
      rfl
    | bare hne hv =>
      obtain ⟨d, v, rfl⟩ := exists_cons_of_ne_nil hne
      obtain rfl := Option.some.inj hc
      rw [Bool.eq_false_iff]
      intro hop
      have hbare := hv d mem_cons_self
      rw [isBare_of_isOperator hop] at hbare
      cases hbare
    | missing =>
      rcases hfollow.head c hc with hspace | rfl | rfl | rfl
      · exact isOperator_of_isWhitespace hspace
      · rfl
      · rfl
      · rfl
    | unterminated hv =>
      obtain rfl := Option.some.inj hc
      rfl

theorem lexIdent_paren (hw : IsIdentifier alphabet w) (hbefore : Spaces before) (x : List Char) :
    lexIdent alphabet (w ++ (before ++ '(' :: x)) =
        (takeArgs maxConditionFunctionArgs x).map (fun r => (.function (String.ofList w) r.1, r.2)) ∧
      lexemeOpen alphabet (w ++ (before ++ '(' :: x)) = argsOpen maxConditionFunctionArgs x := by
  have hparen : ∀ c ∈ ('(' :: x).head?, isIdent alphabet c = false := by
    intro c hc
    obtain rfl := Option.some.inj hc
    exact isIdent_paren
  obtain ⟨htake, hdrop⟩ := ident_span hw.continues hbefore hparen
  have hskip : skipWhitespace (before ++ '(' :: x) = '(' :: x := skipWhitespace_append hbefore (by simp [isWhitespace])
  rw [lexIdent, lexemeOpen, htake, hdrop, hskip]
  exact ⟨rfl, rfl⟩

theorem lexIdent_operator {x : List Char} {op : String} (hw : IsIdentifier alphabet w) (hbefore : Spaces before)
    (hop : op ∈ operators) (hx : ∀ c ∈ x.head?, isOperator c = false) :
    lexIdent alphabet (w ++ (before ++ (op.toList ++ x))) =
        .ok (.comparison (String.ofList w) op (takeValue alphabet (skipWhitespace x)).1,
          (takeValue alphabet (skipWhitespace x)).2) ∧
      lexemeOpen alphabet (w ++ (before ++ (op.toList ++ x))) = valueOpen alphabet (skipWhitespace x) := by
  obtain ⟨hchars, hne⟩ := operators_spec hop
  obtain ⟨d, ds, hds⟩ := exists_cons_of_ne_nil hne
  have hd : isOperator d = true := hchars d (by rw [hds]; exact mem_cons_self)
  have hidents : ∀ c ∈ (op.toList ++ x).head?, isIdent alphabet c = false := by
    intro c hc
    rw [hds] at hc
    obtain rfl := Option.some.inj hc
    exact isIdent_of_isOperator hd
  obtain ⟨htake, hdrop⟩ := ident_span hw.continues hbefore hidents
  have hskip : skipWhitespace (before ++ (op.toList ++ x)) = op.toList ++ x := by
    apply skipWhitespace_append hbefore
    intro c hc
    rw [hds] at hc
    obtain rfl := Option.some.inj hc
    exact isWhitespace_of_isOperator hd
  obtain ⟨hopTake, hopDrop⟩ := span_stop hchars hx
  have hparen : ∀ rest, op.toList ++ x = '(' :: rest → False := by
    intro rest heq
    rw [hds] at heq
    obtain rfl := (cons.inj heq).1
    revert hd
    decide
  rw [lexIdent, lexemeOpen, htake, hdrop, hskip]
  constructor
  · split
    · rename_i rest heq
      exact absurd heq (hparen rest)
    · rw [hopTake, hopDrop, String.ofList_toList, if_pos hop]
  · split
    · rename_i rest heq
      exact absurd heq (hparen rest)
    · rw [hopDrop]

/-- The lexer reads a text that is followed as its ending allows, and tells whether it is left open. -/
theorem lexIdent_complete {t : List Char} {tok : Token} (h : Lexeme alphabet o e t tok)
    (hargs : ∀ name args, tok = .function name args → args.length ≤ maxConditionFunctionArgs) (hfollow : Follow e rest) :
    ∃ rest', lexIdent alphabet (t ++ rest) = .ok (tok, rest') ∧ Resumes rest rest' ∧
      lexemeOpen alphabet (t ++ rest) = o := by
  cases h with
  | comparison hw hbefore hop hafter hvalue =>
    obtain ⟨rest', hread, hresumes, hopen⟩ := takeValue_complete hvalue hfollow
    refine ⟨rest', ?_, hresumes, ?_⟩
    · simp only [append_assoc]
      rw [(lexIdent_operator hw hbefore hop (value_head hvalue hafter hfollow)).1, skipWhitespace_spaces hafter, hread]
    · simp only [append_assoc]
      rw [(lexIdent_operator hw hbefore hop (value_head hvalue hafter hfollow)).2, skipWhitespace_spaces hafter, hopen]
  | call hw hbefore hcs =>
    obtain ⟨hread, hopen⟩ := takeArgs_closed hcs rfl (hargs _ _ rfl) rest
    refine ⟨rest, ?_, .inl rfl, ?_⟩
    · simp only [append_assoc, cons_append, nil_append]
      rw [(lexIdent_paren hw hbefore _).1, hread]
      rfl
    · simp only [append_assoc, cons_append, nil_append]
      rw [(lexIdent_paren hw hbefore _).2, hopen]
  | openCall hw hbefore hcs =>
    obtain ⟨rest', hread, hresumes, hopen⟩ := takeArgs_open hcs hfollow (hargs _ _ rfl)
    refine ⟨rest', ?_, hresumes, ?_⟩
    · simp only [append_assoc, cons_append]
      rw [(lexIdent_paren hw hbefore _).1, hread]
      rfl
    · simp only [append_assoc, cons_append]
      rw [(lexIdent_paren hw hbefore _).2, hopen]

end Complete

/-! ### What the lexer has read -/

section Sound

variable {alphabet : Alphabet}

variable {cs : List Char}

theorem ident_split (hstart : ∃ c ∈ cs.head?, isIdentStart alphabet c = true) :
    ∃ w before, IsIdentifier alphabet w ∧ Spaces before ∧ w = cs.takeWhile (isIdent alphabet) ∧
      cs = w ++ (before ++ skipWhitespace (cs.dropWhile (isIdent alphabet))) := by
  obtain ⟨before, hbefore, hsplit⟩ := skipWhitespace_split (cs.dropWhile (isIdent alphabet))
  refine ⟨_, before, ⟨?_, fun c hc => mem_takeWhile_imp hc⟩, hbefore, rfl, ?_⟩
  · obtain ⟨c, hc, hident⟩ := hstart
    cases cs with
    | nil => cases hc
    | cons d cs =>
      obtain rfl := Option.some.inj hc
      refine ⟨d, ?_, hident⟩
      rw [takeWhile_cons_of_pos (isIdent_of_isIdentStart hident)]
      rfl
  · rw [← hsplit]
    exact takeWhile_append_dropWhile.symm

/-- What stands after white space was skipped is left as it is. -/
theorem leaves_call (h : (skipWhitespace cs).head? ≠ some ')') : Leaves .call (skipWhitespace cs) := by
  have hself : skipBlanks (skipWhitespace cs) = skipWhitespace cs := by
    cases hskip : skipWhitespace cs with
    | nil => rfl
    | cons c rest =>
      have hspace : isWhitespace c = false := head_dropWhile c (by rw [← skipWhitespace, hskip]; rfl)
      apply dropWhile_cons_of_neg
      intro hblank
      rw [isWhitespace_of_isBlank hblank] at hspace
      cases hspace
  rw [Leaves, hself]
  exact h

variable {rest : List Char}

theorem takeArgs_nil {left : Nat} (h : takeArgs left cs = .ok ([], rest)) :
    ∃ before, Spaces before ∧ cs = before ++ rest := by
  obtain ⟨before, hbefore, hsplit⟩ := skipWhitespace_split cs
  refine ⟨before, hbefore, ?_⟩
  by_cases hquote : (skipWhitespace cs).head? = some '\''
  · obtain ⟨x, hx⟩ : ∃ x, skipWhitespace cs = '\'' :: x := by
      cases hskip : skipWhitespace cs with
      | nil =>
        rw [hskip] at hquote
        cases hquote
      | cons c x =>
        rw [hskip] at hquote
        obtain rfl := Option.some.inj hquote
        exact ⟨x, rfl⟩
    rw [takeArgs, hx] at h
    cases left with
    | zero => cases h
    | succ left =>
      simp only at h
      split at h
      · obtain ⟨r, -, heq⟩ := Outcome.map_eq_ok.mp h
        cases heq
      · cases h
      · cases h
  · rw [(takeArgs_stop left hquote).1] at h
    obtain ⟨-, rfl⟩ := mk.inj (ok.inj h)
    exact hsplit

theorem takeArgs_sound {left : Nat} {args : List String} (h : takeArgs left cs = .ok (args, rest)) (hne : args ≠ []) :
    (∃ t, cs = t ++ ')' :: rest ∧ ArgsText .call t args) ∨
      ∃ e t, cs = t ++ rest ∧ ArgsText e t args ∧ Leaves e rest := by
  induction left generalizing cs args with
  | zero =>
    rw [takeArgs] at h
    split at h
    · cases h
    · obtain ⟨rfl, -⟩ := mk.inj (ok.inj h)
      exact absurd rfl hne
  | succ left ih =>
    obtain ⟨before, hbefore, hsplit⟩ := skipWhitespace_split cs
    rw [takeArgs] at h
    split at h
    · rename_i x hx
      obtain ⟨ha, hquote⟩ := quoted_cases x
      obtain ⟨after, hafter, hafterSplit⟩ := skipWhitespace_split (afterQuote x)
      rw [hx] at hsplit
      simp only at h
      rcases hquote with ⟨-, hall, hnone⟩ | ⟨-, hclosed⟩
      · rw [hnone] at h
        obtain ⟨rfl, rfl⟩ := mk.inj (ok.inj h)
        refine .inr ⟨.quote, before ++ '\'' :: x, ?_, ?_, rfl⟩
        · rw [← hsplit]
          exact (append_nil _).symm
        · rw [hall] at ha ⊢
          exact .unterminated hbefore ha
      · have hcs : cs = before ++ '\'' :: (quotedText x ++ '\'' :: (after ++ skipWhitespace (afterQuote x))) := by
          rw [← hafterSplit, ← hclosed]
          exact hsplit
        split at h
        · rename_i y hy
          obtain ⟨⟨args', rest'⟩, hargs, heq⟩ := Outcome.map_eq_ok.mp h
          obtain ⟨rfl, rfl⟩ := mk.inj heq
          rw [hy] at hcs
          cases args' with
          | nil =>
            obtain ⟨behind, hbehind, rfl⟩ := takeArgs_nil hargs
            refine .inr ⟨.plain, _, ?_, .comma hbefore ha hafter hbehind, trivial⟩
            simp only [hcs, append_assoc, cons_append]
          | cons arg args' =>
            rcases ih hargs (cons_ne_nil _ _) with ⟨t, rfl, ht⟩ | ⟨e, t, rfl, ht, hleaves⟩
            · refine .inl ⟨_, ?_, .more hbefore ha hafter ht⟩
              simp only [hcs, append_assoc, cons_append]
            · refine .inr ⟨e, _, ?_, .more hbefore ha hafter ht, hleaves⟩
              simp only [hcs, append_assoc, cons_append]
        · rename_i y hy
          obtain ⟨rfl, rfl⟩ := mk.inj (ok.inj h)
          rw [hy] at hcs
          refine .inl ⟨_, ?_, .last hbefore ha hafter⟩
          simp only [hcs, append_assoc, cons_append]
        · rename_i hcomma hparen
          obtain ⟨rfl, rfl⟩ := mk.inj (ok.inj h)
          refine .inr ⟨.call, _, ?_, .last hbefore ha hafter, leaves_call ?_⟩
          · rw [append_assoc, cons_append, append_assoc, cons_append]
            exact hcs
          · intro hhead
            cases hskip : skipWhitespace (afterQuote x) with
            | nil =>
              rw [hskip] at hhead
              cases hhead
            | cons c y =>
              rw [hskip] at hhead
              obtain rfl := Option.some.inj hhead
              exact hparen y hskip
    · obtain ⟨rfl, -⟩ := mk.inj (ok.inj h)
      exact absurd rfl hne

theorem takeValue_sound (cs : List Char) : ∃ o e text v, cs = text ++ (takeValue alphabet cs).2 ∧
    (takeValue alphabet cs).1 = String.ofList v ∧ ValueText alphabet o e text v ∧
    Leaves e (takeValue alphabet cs).2 := by
  by_cases hquote : cs.head? = some '\''
  · obtain ⟨x, rfl⟩ : ∃ x, cs = '\'' :: x := by
      cases cs with
      | nil => cases hquote
      | cons c x =>
        obtain rfl := Option.some.inj hquote
        exact ⟨x, rfl⟩
    obtain ⟨hv, hall⟩ := quoted_cases x
    rw [(takeValue_quote x).1]
    rcases hall with ⟨-, hall, hnone⟩ | ⟨-, hclosed⟩
    · rw [hall] at hv
      refine ⟨true, .quote, '\'' :: x, x, ?_, by rw [hall], .unterminated hv, hnone⟩
      rw [hnone, append_nil]
    · refine ⟨false, .plain, '\'' :: (quotedText x ++ ['\'']), _, ?_, rfl, .quoted hv, trivial⟩
      rw [cons_append, append_assoc]
      exact congrArg ('\'' :: ·) hclosed
  · rw [takeValue_bare hquote]
    have hsplit : cs = cs.takeWhile (isBare alphabet) ++ cs.dropWhile (isBare alphabet) :=
      takeWhile_append_dropWhile.symm
    by_cases hne : cs.takeWhile (isBare alphabet) = []
    · refine ⟨true, .plain, [], [], ?_, by rw [hne], .missing, trivial⟩
      rw [hne] at hsplit
      exact hsplit
    · exact ⟨false, .plain, _, _, hsplit, rfl, .bare hne fun c hc => mem_takeWhile_imp hc, trivial⟩

/-- What the lexer reads from an identifier on is the text of a token, and it stops where that text ends. -/
theorem lexIdent_sound {tok : Token} (hstart : ∃ c ∈ cs.head?, isIdentStart alphabet c = true)
    (h : lexIdent alphabet cs = .ok (tok, rest)) (htok : ∀ name, tok ≠ .function name []) :
    ∃ o e t, cs = t ++ rest ∧ Lexeme alphabet o e t tok ∧ Leaves e rest := by
  obtain ⟨w, before, hw, hbefore, hident, hcs⟩ := ident_split hstart
  rw [lexIdent, ← hident] at h
  split at h
  · rename_i x hx
    rw [hx] at hcs
    obtain ⟨⟨args, rest'⟩, hargs, heq⟩ := Outcome.map_eq_ok.mp h
    obtain ⟨rfl, rfl⟩ := mk.inj heq
    have hne : args ≠ [] := by
      rintro rfl
      exact htok _ rfl
    rcases takeArgs_sound hargs hne with ⟨t, rfl, ht⟩ | ⟨e, t, rfl, ht, hleaves⟩
    · refine ⟨false, .plain, _, ?_, .call hw hbefore ht, trivial⟩
      simp only [hcs, append_assoc, cons_append, nil_append]
    · refine ⟨true, e, _, ?_, .openCall hw hbefore ht, hleaves⟩
      simp only [hcs, append_assoc, cons_append]
  · simp only at h
    split at h
    · rename_i hop
      obtain ⟨rfl, rfl⟩ := mk.inj (ok.inj h)
      generalize skipWhitespace (cs.dropWhile (isIdent alphabet)) = x at hcs hop ⊢
      obtain ⟨after, hafter, hsplit⟩ := skipWhitespace_split (x.dropWhile isOperator)
      obtain ⟨o, e, text, v, htext, hvalue, hv, hleaves⟩ :=
        takeValue_sound (skipWhitespace (x.dropWhile isOperator))
      refine ⟨o, e, w ++ (before ++ ((String.ofList (x.takeWhile isOperator)).toList ++ (after ++ text))), ?_, ?_, hleaves⟩
      · have hx : x = x.takeWhile isOperator ++ x.dropWhile isOperator := takeWhile_append_dropWhile.symm
        simp only [append_assoc, String.toList_ofList]
        rw [← htext, ← hsplit, ← hx]
        exact hcs
      · rw [hvalue]
        exact .comparison hw hbefore hop hafter hv
    · cases h

end Sound

end FraiseQL.ConditionDsl
