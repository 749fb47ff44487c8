import Mathlib
import FraiseQL.ByteSlice
import FraiseQL.ObserverError
import FraiseQL.Outcome
import FraiseQL.RustText

/-!
The condition language of the observers: its tree, the lexer, which takes a comparison or a whole function call as
one token, and the recursive descent over the tokens with its limit on nesting
(`fraiseql-observers/src/condition/{mod,lexer,parser}.rs`).
-/

namespace FraiseQL.ConditionDsl

open List Except Prod

open RustText (isWhitespace byteLength)

inductive ConditionAst where
  | comparison (field op value : String)
  | hasField (field : String)
  | fieldChanged (field : String)
  | fieldChangedTo (field value : String)
  | fieldChangedFrom (field value : String)
  | and (left right : ConditionAst)
  | or (left right : ConditionAst)
  | not (expr : ConditionAst)

/-- The tokens of the lexer. -/
inductive Token where
  | comparison (field op value : String)
  | function (name : String) (args : List String)
  | and | or | not | lparen | rparen
  deriving DecidableEq

/-- The letters and digits of Unicode; none of them is white space. -/
structure Alphabet extends RustText.Letters where
  whitespace_not_alphanumeric : ∀ c, isWhitespace c = true → isAlphanumeric c = false

/-- The letters and digits of ASCII alone. -/
def asciiAlphabet : Alphabet where
  toLetters := RustText.asciiLetters
  whitespace_not_alphanumeric := by
    intro c hc
    rw [Bool.eq_false_iff]
    intro halphanumeric
    simp only [isWhitespace, Bool.or_eq_true, decide_eq_true_eq, List.mem_cons, List.not_mem_nil, or_false] at hc
    simp only [RustText.asciiLetters, Char.isAlphanum, Char.isAlpha, Char.isUpper, Char.isLower, Char.isDigit,
      Bool.or_eq_true, Bool.and_eq_true, decide_eq_true_eq, ge_iff_le, UInt32.le_iff_toNat_le] at halphanumeric
    have htoNat : c.toNat = c.val.toNat := rfl
    have hupper : 'A'.val.toNat = 65 ∧ 'Z'.val.toNat = 90 := ⟨rfl, rfl⟩
    have hlower : 'a'.val.toNat = 97 ∧ 'z'.val.toNat = 122 := ⟨rfl, rfl⟩
    have hdigit : '0'.val.toNat = 48 ∧ '9'.val.toNat = 57 := ⟨rfl, rfl⟩
    omega

/-- An error of the condition language. -/
abbrev invalid {α : Type} (reason : String) : Except ObserverError α := .error (.invalidCondition reason)

def maxConditionInputBytes : Nat := 4096

def maxConditionFunctionArgs : Nat := 32

def maxConditionDepth : Nat := 64

/-! ### Lexer -/

section Lexer

variable (alphabet : Alphabet)

/-- The blanks that may stand between tokens. -/
def isBlank (c : Char) : Bool := c == ' ' || c == '\t' || c == '\n' || c == '\r'

def isIdent (c : Char) : Bool := alphabet.isAlphanumeric c || c == '_'

/-- The characters an identifier begins with. -/
def isIdentStart (c : Char) : Bool := alphabet.isAlphabetic c || c == '_'

def isOperator (c : Char) : Bool := c == '=' || c == '!' || c == '>' || c == '<'

/-- The characters of a value without quotes. -/
def isBare (c : Char) : Bool := alphabet.isAlphanumeric c || c == '.' || c == '-'

def notQuote (c : Char) : Bool := c != '\''

def skipWhitespace (cs : List Char) : List Char := cs.dropWhile isWhitespace

/-- What stands before the closing quote, or all there is. -/
def quotedText (cs : List Char) : List Char := cs.takeWhile notQuote

/-- What follows the closing quote, if there is one. -/
def afterQuote (cs : List Char) : List Char := (cs.dropWhile notQuote).drop 1

/-- The arguments of a call, when `left` more may come; the text begins after the opening parenthesis or a comma. -/
def takeArgs : Nat → List Char → Except ObserverError (List String × List Char)
  | left, cs =>
    match skipWhitespace cs with
    | '\'' :: rest =>
      match left with
      | 0 => invalid s!"Too many function arguments (max {maxConditionFunctionArgs})"
      | left + 1 =>
        let arg := String.ofList (quotedText rest)
        match skipWhitespace (afterQuote rest) with
        | ',' :: rest => (takeArgs left rest).map fun r => (arg :: r.1, r.2)
        | ')' :: rest => .ok ([arg], rest)
        | rest => .ok ([arg], rest)
    | rest => .ok ([], rest)

/-- The value of a comparison, quoted or bare. -/
def takeValue (cs : List Char) : String × List Char :=
  match cs with
  | '\'' :: rest => (String.ofList (quotedText rest), afterQuote rest)
  | cs => (String.ofList (cs.takeWhile (isBare alphabet)), cs.dropWhile (isBare alphabet))

/-- The operators of a comparison. -/
def operators : List String := ["==", "!=", ">", "<", ">=", "<="]

/-- A token that begins with an identifier. -/
def lexIdent (cs : List Char) : Except ObserverError (Token × List Char) :=
  let ident := String.ofList (cs.takeWhile (isIdent alphabet))
  let rest := skipWhitespace (cs.dropWhile (isIdent alphabet))
  match rest with
  | '(' :: rest => (takeArgs maxConditionFunctionArgs rest).map fun r => (.function ident r.1, r.2)
  | rest =>
    let op := String.ofList (rest.takeWhile isOperator)
    if op ∈ operators then
      let value := takeValue alphabet (skipWhitespace (rest.dropWhile isOperator))
      .ok (.comparison ident op value.1, value.2)
    else invalid s!"Unknown token: {ident}"

/-- What the lexer does at a character: the token it pushes, if any, and the text it goes on with. -/
def lexChar (c : Char) (cs : List Char) : Except ObserverError (Option Token × List Char) :=
  if isBlank c then .ok (none, cs)
  else if c = '(' then .ok (some .lparen, cs)
  else if c = ')' then .ok (some .rparen, cs)
  else if c = '!' then
    if cs.head? = some '=' then invalid "!= should be part of comparison, not standalone" else .ok (some .not, cs)
  else if c = '&' then
    if cs.head? = some '&' then .ok (some .and, cs.tail) else invalid "Expected '&&', got single '&'"
  else if c = '|' then
    if cs.head? = some '|' then .ok (some .or, cs.tail) else invalid "Expected '||', got single '|'"
  else if isIdentStart alphabet c then (lexIdent alphabet (c :: cs)).map fun r => (some r.1, r.2)
  else invalid s!"Unexpected character: {c}"

/-- The loop of the lexer; every round takes a character, so that a text has enough rounds in its length. -/
def tokenizeFrom : Nat → List Char → Except ObserverError (List Token)
  | _, [] => .ok []
  | 0, _ :: _ => .ok []
  | rounds + 1, c :: cs =>
    match lexChar alphabet c cs with
    | .error e => .error e
    | .ok (none, rest) => tokenizeFrom rounds rest
    | .ok (some token, rest) => (tokenizeFrom rounds rest).map (token :: ·)

def tokenize (condition : String) : Except ObserverError (List Token) :=
  let bytes := byteLength condition.toList
  if maxConditionInputBytes < bytes then
    invalid s!"Condition expression too long ({bytes} bytes, max {maxConditionInputBytes})"
  else tokenizeFrom alphabet condition.toList.length condition.toList

end Lexer

/-! ### Parser -/

/-- A function of the parser: the tree it returns, and the tokens it leaves. -/
abbrev Parser := List Token → Except ObserverError (ConditionAst × List Token)

def parseFunction (name : String) (args : List String) : Except ObserverError ConditionAst :=
  match name with
  | "has_field" =>
    match args with
    | [field] => .ok (.hasField field)
    | _ => invalid s!"has_field expects 1 argument, got {args.length}"
  | "field_changed" =>
    match args with
    | [field] => .ok (.fieldChanged field)
    | _ => invalid s!"field_changed expects 1 argument, got {args.length}"
  | "field_changed_to" =>
    match args with
    | [field, value] => .ok (.fieldChangedTo field value)
    | _ => invalid s!"field_changed_to expects 2 arguments, got {args.length}"
  | "field_changed_from" =>
    match args with
    | [field, value] => .ok (.fieldChangedFrom field value)
    | _ => invalid s!"field_changed_from expects 2 arguments, got {args.length}"
  | _ => invalid s!"Unknown function: {name}"

/-- The loop of `parse_or` and `parse_and`: while the operator stands next, another operand is read and put to the
right of what there is. Every round takes a token. -/
def parseOperands (operator : Token) (node : ConditionAst → ConditionAst → ConditionAst) (operand : Parser) :
    Nat → ConditionAst → Parser
  | 0, left, ts => .ok (left, ts)
  | rounds + 1, left, ts =>
    if ts.head? = some operator then
      match operand ts.tail with
      | .error e => .error e
      | .ok (right, rest) => parseOperands operator node operand rounds (node left right) rest
    else .ok (left, ts)

def parseJoined (operator : Token) (node : ConditionAst → ConditionAst → ConditionAst) (operand : Parser) : Parser :=
  fun ts =>
    match operand ts with
    | .error e => .error e
    | .ok (left, rest) => parseOperands operator node operand rest.length left rest

/-- `ConditionParser::parse_and`, with the `parse_not` of its depth. -/
def parseAnd (parseNot : Parser) : Parser := parseJoined .and .and parseNot

/-- `ConditionParser::parse_or`, with the `parse_not` of its depth. -/
def parseOr (parseNot : Parser) : Parser := parseJoined .or .or (parseAnd parseNot)

/-- A token in the text of an error; the arm that prints it is reached by these four alone. -/
def Token.debugText : Token → String
  | .and => "And"
  | .or => "Or"
  | .not => "Not"
  | .rparen => "RParen"
  | _ => ""

/-- `ConditionParser::parse_primary`, with the `parse_not` of the next depth. -/
def parsePrimary (parseNot : Parser) : Parser
  | [] => invalid "Unexpected end of condition"
  | .lparen :: ts =>
    match parseOr parseNot ts with
    | .error e => .error e
    | .ok (ast, .rparen :: rest) => .ok (ast, rest)
    | .ok (_, _) => invalid "Expected closing parenthesis"
  | .comparison field op value :: ts => .ok (.comparison field op value, ts)
  | .function name args :: ts => (parseFunction name args).map fun ast => (ast, ts)
  | t :: _ => invalid s!"Expected expression, got {t.debugText}"

/-- `ConditionParser::parse_not` at the depth `maxConditionDepth + 1 - levels`. -/
def parseNot : Nat → Parser
  | 0, _ => invalid s!"Condition expression exceeds maximum nesting depth ({maxConditionDepth})"
  | levels + 1, .not :: ts => (parseNot levels ts).map fun r => (.not r.1, r.2)
  | levels + 1, ts => parsePrimary (parseNot levels) ts

def parseTokens (ts : List Token) : Except ObserverError ConditionAst :=
  match parseOr (parseNot (maxConditionDepth + 1)) ts with
  | .error e => .error e
  | .ok (ast, []) => .ok ast
  | .ok (_, _ :: _) => invalid "Unexpected tokens after condition"

def parse (alphabet : Alphabet) (condition : String) : Except ObserverError ConditionAst :=
  match tokenize alphabet condition with
  | .error e => .error e
  | .ok ts => parseTokens ts

/-! ### Conditions as tokens -/

inductive TokenTree : Token → ConditionAst → Prop
  | comparison (field op value : String) : TokenTree (.comparison field op value) (.comparison field op value)
  | hasField (field : String) : TokenTree (.function "has_field" [field]) (.hasField field)
  | fieldChanged (field : String) : TokenTree (.function "field_changed" [field]) (.fieldChanged field)
  | fieldChangedTo (field value : String) :
      TokenTree (.function "field_changed_to" [field, value]) (.fieldChangedTo field value)
  | fieldChangedFrom (field value : String) :
      TokenTree (.function "field_changed_from" [field, value]) (.fieldChangedFrom field value)

/-- The levels of precedence, the loosest first. -/
inductive Level where
  | or | and | not | primary

/-- The grammar over tokens. -/
inductive Phrase : Level → Nat → List Token → ConditionAst → Prop
  | token {n : Nat} {t : Token} {ast : ConditionAst} (h : TokenTree t ast) : Phrase .primary n [t] ast
  | group {n : Nat} {ts : List Token} {ast : ConditionAst} (h : Phrase .or n ts ast) :
      Phrase .primary (n + 1) (.lparen :: (ts ++ [.rparen])) ast
  | primary {n : Nat} {ts : List Token} {ast : ConditionAst} (h : Phrase .primary n ts ast) : Phrase .not n ts ast
  | not {n : Nat} {ts : List Token} {ast : ConditionAst} (h : Phrase .not n ts ast) :
      Phrase .not (n + 1) (.not :: ts) (.not ast)
  | operandAnd {n : Nat} {ts : List Token} {ast : ConditionAst} (h : Phrase .not n ts ast) : Phrase .and n ts ast
  | and {n : Nat} {ts us : List Token} {left right : ConditionAst} (h : Phrase .and n ts left)
      (h' : Phrase .not n us right) : Phrase .and n (ts ++ .and :: us) (.and left right)
  | operandOr {n : Nat} {ts : List Token} {ast : ConditionAst} (h : Phrase .and n ts ast) : Phrase .or n ts ast
  | or {n : Nat} {ts us : List Token} {left right : ConditionAst} (h : Phrase .or n ts left)
      (h' : Phrase .and n us right) : Phrase .or n (ts ++ .or :: us) (.or left right)

theorem parseFunction_eq_ok_iff {name : String} {args : List String} {ast : ConditionAst} :
    parseFunction name args = .ok ast ↔ TokenTree (.function name args) ast := by
  constructor
  · intro h
    rw [parseFunction.eq_def] at h
    split at h
    · split at h
      · cases h
        exact .hasField _
      · cases h
    · split at h
      · cases h
        exact .fieldChanged _
      · cases h
    · split at h
      · cases h
        exact .fieldChangedTo _ _
      · cases h
    · split at h
      · cases h
        exact .fieldChangedFrom _ _
      · cases h
    · cases h
  · intro h
    cases h <;> rfl

/-- The functions take one argument or two. -/
theorem TokenTree.args_length {name : String} {args : List String} {ast : ConditionAst}
    (h : TokenTree (.function name args) ast) : 0 < args.length ∧ args.length ≤ 2 := by
  cases h <;> simp

/-! ### The parser over tokens -/

section Tokens

variable {n : Nat} {ts rest : List Token} {ast : ConditionAst}

/-- What a parser accepts is a phrase of its level, and it leaves what follows. -/
def Accepts (p : Parser) (level : Level) (n : Nat) : Prop :=
  ∀ ts ast rest, p ts = .ok (ast, rest) → ∃ pre, ts = pre ++ rest ∧ Phrase level n pre ast

variable {operator : Token} {node : ConditionAst → ConditionAst → ConditionAst} {operand : Parser} {level : Level}

theorem parseOperands_sound {operandLevel : Level} (hoperand : Accepts operand operandLevel n)
    (hjoin : ∀ {pre us left right}, Phrase level n pre left → Phrase operandLevel n us right →
      Phrase level n (pre ++ operator :: us) (node left right))
    {rounds : Nat} {left : ConditionAst} {before : List Token} (hbefore : Phrase level n before left)
    (h : parseOperands operator node operand rounds left ts = .ok (ast, rest)) :
    ∃ pre, ts = pre ++ rest ∧ Phrase level n (before ++ pre) ast := by
  induction rounds generalizing left before ts with
  | zero =>
    obtain ⟨rfl, rfl⟩ := mk.inj (ok.inj h)
    exact ⟨[], rfl, by rwa [append_nil]⟩
  | succ rounds ih =>
    rw [parseOperands] at h
    split at h
    · rename_i hhead
      obtain ⟨us, rfl⟩ : ∃ us, ts = operator :: us := by
        cases ts with
        | nil => cases hhead
        | cons t us =>
          obtain rfl := Option.some.inj hhead
          exact ⟨us, rfl⟩
      split at h
      · cases h
      · rename_i right more hright
        obtain ⟨pre, hpre, hphrase⟩ := hoperand us right more hright
        obtain ⟨others, rfl, hall⟩ := ih (hjoin hbefore hphrase) h
        refine ⟨operator :: (pre ++ others), ?_, ?_⟩
        · rw [hpre, cons_append, append_assoc]
        · rw [append_assoc, cons_append] at hall
          exact hall
    · obtain ⟨rfl, rfl⟩ := mk.inj (ok.inj h)
      exact ⟨[], rfl, by rwa [append_nil]⟩

theorem parseJoined_sound {operandLevel : Level} (hoperand : Accepts operand operandLevel n)
    (hone : ∀ {us right}, Phrase operandLevel n us right → Phrase level n us right)
    (hjoin : ∀ {pre us left right}, Phrase level n pre left → Phrase operandLevel n us right →
      Phrase level n (pre ++ operator :: us) (node left right)) :
    Accepts (parseJoined operator node operand) level n := by
  intro ts ast rest h
  rw [parseJoined] at h
  split at h
  · cases h
  · rename_i left more hleft
    obtain ⟨pre, rfl, hphrase⟩ := hoperand ts left more hleft
    obtain ⟨others, rfl, hall⟩ := parseOperands_sound hoperand hjoin (hone hphrase) h
    exact ⟨pre ++ others, (append_assoc _ _ _).symm, hall⟩

theorem parseOr_sound {parseNot : Parser} (h : Accepts parseNot .not n) : Accepts (parseOr parseNot) .or n :=
  parseJoined_sound (parseJoined_sound h .operandAnd .and) .operandOr .or

/-- Nothing is derived within a group when no level is left. -/
theorem parseOr_zero (ts : List Token) (ast : ConditionAst) (rest : List Token) :
    parseOr (parseNot 0) ts ≠ .ok (ast, rest) := by
  rw [parseOr, parseJoined, parseAnd, parseJoined, parseNot]
  exact nofun

/-- What a parser accepts is a phrase that leaves one level less. -/
def AcceptsBelow (p : Parser) (level : Level) (n : Nat) : Prop :=
  ∀ ts ast rest, p ts = .ok (ast, rest) → ∃ m pre, n = m + 1 ∧ ts = pre ++ rest ∧ Phrase level m pre ast

variable {p : Parser}

theorem parsePrimary_sound (h : AcceptsBelow (parseOr p) .or n) : Accepts (parsePrimary p) .primary n := by
  intro ts ast rest hok
  rw [parsePrimary.eq_def] at hok
  split at hok
  · cases hok
  · rename_i us
    split at hok
    · cases hok
    · rename_i inner more hinner
      obtain ⟨rfl, rfl⟩ := mk.inj (ok.inj hok)
      obtain ⟨m, pre, rfl, rfl, hphrase⟩ := h us _ _ hinner
      refine ⟨.lparen :: (pre ++ [.rparen]), ?_, .group hphrase⟩
      rw [cons_append, append_assoc]
      rfl
    · cases hok
  · obtain ⟨rfl, rfl⟩ := mk.inj (ok.inj hok)
    exact ⟨[_], rfl, .token (.comparison _ _ _)⟩
  · obtain ⟨tree, htree, heq⟩ := Outcome.map_eq_ok.mp hok
    obtain ⟨rfl, rfl⟩ := mk.inj heq
    exact ⟨[_], rfl, .token (parseFunction_eq_ok_iff.mp htree)⟩
  · cases hok

theorem parseNot_primary {levels : Nat} (h : ts.head? ≠ some .not) :
    parseNot (levels + 1) ts = parsePrimary (parseNot levels) ts := by
  rw [parseNot]
  rintro us rfl
  exact h rfl

theorem parseNot_step {levels : Nat} (hnot : AcceptsBelow (parseNot levels) .not levels)
    (hor : AcceptsBelow (parseOr (parseNot levels)) .or levels) : Accepts (parseNot (levels + 1)) .not levels := by
  intro ts ast rest h
  by_cases hhead : ts.head? = some .not
  · obtain ⟨us, rfl⟩ : ∃ us, ts = .not :: us := by
      cases ts with
      | nil => cases hhead
      | cons t us =>
        obtain rfl := Option.some.inj hhead
        exact ⟨us, rfl⟩
    obtain ⟨⟨tree, more⟩, htree, heq⟩ := Outcome.map_eq_ok.mp h
    obtain ⟨rfl, rfl⟩ := mk.inj heq
    obtain ⟨m, pre, rfl, rfl, hphrase⟩ := hnot us tree more htree
    exact ⟨.not :: pre, rfl, .not hphrase⟩
  · rw [parseNot_primary hhead] at h
    obtain ⟨pre, rfl, hphrase⟩ := parsePrimary_sound hor ts ast rest h
    exact ⟨pre, rfl, .primary hphrase⟩

theorem parseNot_sound (n : Nat) : Accepts (parseNot (n + 1)) .not n := by
  induction n with
  | zero =>
    apply parseNot_step
    · intro ts ast rest h
      cases h
    · intro ts ast rest h
      exact absurd h (parseOr_zero ts ast rest)
  | succ n ih =>
    apply parseNot_step
    · intro ts ast rest h
      obtain ⟨pre, hpre, hphrase⟩ := ih ts ast rest h
      exact ⟨n, pre, rfl, hpre, hphrase⟩
    · intro ts ast rest h
      obtain ⟨pre, hpre, hphrase⟩ := parseOr_sound ih ts ast rest h
      exact ⟨n, pre, rfl, hpre, hphrase⟩

/-! ### Phrases are accepted -/

/-- The loop has rounds enough in the tokens it stands before. -/
theorem parseOperands_rounds
    (hshrink : ∀ ts ast rest, operand ts = .ok (ast, rest) → rest.length ≤ ts.length) {rounds : Nat}
    {left : ConditionAst} (h : ts.length ≤ rounds) :
    parseOperands operator node operand rounds left ts = parseOperands operator node operand ts.length left ts := by
  induction hlength : ts.length using Nat.strongRecOn generalizing ts rounds left with
  | ind length ih =>
    subst hlength
    cases ts with
    | nil =>
      cases rounds <;> rfl
    | cons t us =>
      obtain ⟨rounds, rfl⟩ : ∃ k, rounds = k + 1 := ⟨rounds - 1, by simp at h; omega⟩
      rw [length_cons, parseOperands, parseOperands]
      split
      · cases hright : operand us with
        | error e =>
          simp only [tail_cons, hright]
        | ok r =>
          have hle := hshrink us r.1 r.2 hright
          simp only [tail_cons, hright]
          rw [ih r.2.length (by simp; omega) (by simp at h; omega) rfl,
            ih r.2.length (by simp; omega) hle rfl]
      · rfl

theorem Accepts.shrinks (h : Accepts p level n) : ∀ ts ast rest, p ts = .ok (ast, rest) → rest.length ≤ ts.length := by
  intro ts ast rest hok
  obtain ⟨pre, rfl, -⟩ := h ts ast rest hok
  rw [length_append]
  omega

section Operands

variable {operator : Token} {node : ConditionAst → ConditionAst → ConditionAst} {operand : Parser}

theorem parseOperands_stop (rounds : Nat) (left : ConditionAst) (h : ts.head? ≠ some operator) :
    parseOperands operator node operand rounds left ts = .ok (left, ts) := by
  cases rounds with
  | zero => rfl
  | succ rounds => rw [parseOperands, if_neg h]

theorem parseOperands_next {level : Level} (hoperand : Accepts operand level n) (left : ConditionAst)
    {right : ConditionAst} (h : operand ts = .ok (right, rest)) :
    parseOperands operator node operand (operator :: ts).length left (operator :: ts) =
      parseOperands operator node operand rest.length (node left right) rest := by
  have hhead : (operator :: ts).head? = some operator := rfl
  rw [length_cons, parseOperands, if_pos hhead]
  simp only [tail_cons, h]
  exact parseOperands_rounds hoperand.shrinks (hoperand.shrinks ts right rest h)

theorem parseJoined_first {left : ConditionAst} (h : operand ts = .ok (left, rest)) :
    parseJoined operator node operand ts = parseOperands operator node operand rest.length left rest := by
  rw [parseJoined]
  simp only [h]

end Operands

/-- How the parser reads a phrase of a level, whatever follows: operands leave it in the loop of their operator. -/
def Reads : Level → Nat → List Token → ConditionAst → Prop
  | .primary, n, ts, ast | .not, n, ts, ast => ∀ rest, parseNot (n + 1) (ts ++ rest) = .ok (ast, rest)
  | .and, n, ts, ast => ∀ rest, parseAnd (parseNot (n + 1)) (ts ++ rest) =
      parseOperands .and .and (parseNot (n + 1)) rest.length ast rest
  | .or, n, ts, ast => ∀ rest, rest.head? ≠ some .and → parseOr (parseNot (n + 1)) (ts ++ rest) =
      parseOperands .or .or (parseAnd (parseNot (n + 1))) rest.length ast rest

theorem parsePrimary_token {t : Token} (h : TokenTree t ast) (p : Parser) (rest : List Token) :
    parsePrimary p (t :: rest) = .ok (ast, rest) := by
  cases h with
  | comparison => rfl
  | hasField => rfl
  | fieldChanged => rfl
  | fieldChangedTo => rfl
  | fieldChangedFrom => rfl

theorem parsePrimary_group {inner : List Token} (h : parseOr p inner = .ok (ast, .rparen :: rest)) :
    parsePrimary p (.lparen :: inner) = .ok (ast, rest) := by
  rw [parsePrimary]
  simp only [h]

theorem phrase_reads (h : Phrase level n ts ast) : Reads level n ts ast := by
  induction h with
  | @token n t ast h =>
    intro rest
    have hhead : (t :: rest).head? ≠ some .not := by
      cases h <;> simp
    rw [cons_append, nil_append, parseNot_primary hhead]
    exact parsePrimary_token h _ rest
  | @group n ts ast _ ih =>
    intro rest
    have hinner := ih (.rparen :: rest) (by simp)
    rw [parseOperands_stop _ _ (by simp)] at hinner
    rw [cons_append, append_assoc]
    exact parsePrimary_group hinner
  | primary _ ih => exact ih
  | not _ ih =>
    intro rest
    rw [cons_append, parseNot, ih rest]
    rfl
  | operandAnd _ ih =>
    intro rest
    exact parseJoined_first (ih rest)
  | @and n ts us left right _ _ ihleft ihright =>
    intro rest
    rw [append_assoc, cons_append, ihleft]
    exact parseOperands_next (parseNot_sound n) left (ihright rest)
  | operandOr _ ih =>
    intro rest hrest
    have hread := ih rest
    rw [parseOperands_stop _ _ hrest] at hread
    exact parseJoined_first hread
  | @or n ts us left right _ _ ihleft ihright =>
    intro rest hrest
    have hread := ihright rest
    rw [parseOperands_stop _ _ hrest] at hread
    have haccepts : Accepts (parseAnd (parseNot (n + 1))) .and n :=
      parseJoined_sound (parseNot_sound n) .operandAnd .and
    rw [append_assoc, cons_append, ihleft _ (by simp)]
    exact parseOperands_next haccepts left hread

/-- The parser accepts the phrases of the grammar with nesting up to its limit. -/
theorem parseTokens_eq_ok_iff : parseTokens ts = .ok ast ↔ Phrase .or maxConditionDepth ts ast := by
  constructor
  · intro h
    rw [parseTokens] at h
    split at h
    · cases h
    · rename_i tree hok
      obtain rfl := ok.inj h
      obtain ⟨pre, rfl, hphrase⟩ := parseOr_sound (parseNot_sound maxConditionDepth) ts tree [] hok
      rwa [append_nil]
    · cases h
  · intro h
    have hread := phrase_reads h [] (by simp)
    rw [append_nil, parseOperands_stop _ _ (by simp)] at hread
    rw [parseTokens, hread]

end Tokens

end FraiseQL.ConditionDsl
