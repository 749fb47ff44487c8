import FraiseQL.ConditionGrammar

/-!
Conditions printed and parsed again. Values are printed without their quotes, and every operand of an operator in
parentheses. A printed tree is read back exactly when its values are bare, the parentheses and negations are nested
within the limit and the text is within its own. A value with any other character is cut at it, so that the comparison
that is read differs from the one that was printed, whatever becomes of the rest.
-/

namespace FraiseQL.ConditionDsl

open ConditionAst List Option

open RustText (isWhitespace byteLength)

/-- The `Display` of a condition. -/
def ConditionAst.display : ConditionAst → String
  | .comparison field op value => s!"{field} {op} {value}"
  | .hasField field => s!"has_field('{field}')"
  | .fieldChanged field => s!"field_changed('{field}')"
  | .fieldChangedTo field value => s!"field_changed_to('{field}', '{value}')"
  | .fieldChangedFrom field value => s!"field_changed_from('{field}', '{value}')"
  | .and left right => "(" ++ left.display ++ ") && (" ++ right.display ++ ")"
  | .or left right => "(" ++ left.display ++ ") || (" ++ right.display ++ ")"
  | .not expr => "!(" ++ expr.display ++ ")"

/-! ### Trees that were read -/

section Spelled

variable {alphabet : Alphabet}

/-- What the parts of a tree that was read are made of. -/
def Spelled (alphabet : Alphabet) : ConditionAst → Prop
  | .comparison field op value => IsIdentifier alphabet field.toList ∧ op ∈ operators ∧ Unquoted value.toList
  | .hasField field | .fieldChanged field => Unquoted field.toList
  | .fieldChangedTo field value | .fieldChangedFrom field value => Unquoted field.toList ∧ Unquoted value.toList
  | .and left right | .or left right => Spelled alphabet left ∧ Spelled alphabet right
  | .not expr => Spelled alphabet expr

variable {o : Bool} {e : Ending}

theorem ValueText.unquoted {text value : List Char} (h : ValueText alphabet o e text value) : Unquoted value := by
  cases h with
  | quoted hv => exact hv
  | missing => exact nofun
  | unterminated hv => exact hv
  | bare _ hv =>
    intro c hc
    have hne : c ≠ '\'' := by
      rintro rfl
      have hbare := hv _ hc
      rw [isBare_of_follows (.inr (.inr (.inr rfl)))] at hbare
      cases hbare
    simpa [notQuote] using hne

variable {cs : List Char}

theorem ArgsText.unquoted {args : List String} (h : ArgsText e cs args) : ∀ a ∈ args, Unquoted a.toList := by
  have hone : ∀ {a : List Char} {b : String}, Unquoted a → b ∈ [String.ofList a] → Unquoted b.toList := by
    intro a b ha hb
    obtain rfl := mem_singleton.mp hb
    rwa [String.toList_ofList]
  induction h with
  | last _ ha _ => exact fun b hb => hone ha hb
  | comma _ ha _ _ => exact fun b hb => hone ha hb
  | unterminated _ ha => exact fun b hb => hone ha hb
  | more _ ha _ _ ih =>
    intro b hb
    rcases mem_cons.mp hb with rfl | hb
    · rwa [String.toList_ofList]
    · exact ih b hb

variable {ast : ConditionAst}

theorem Lexeme.spelled {t : Token} (h : Lexeme alphabet o e cs t) (ht : TokenTree t ast) : Spelled alphabet ast := by
  have hargs : ∀ {name : String} {args : List String}, TokenTree (.function name args) ast →
      (∀ a ∈ args, Unquoted a.toList) → Spelled alphabet ast := by
    intro name args htree hall
    cases htree with
    | hasField => exact hall _ mem_cons_self
    | fieldChanged => exact hall _ mem_cons_self
    | fieldChangedTo | fieldChangedFrom => exact ⟨hall _ mem_cons_self, hall _ (mem_cons_of_mem _ mem_cons_self)⟩
  cases h with
  | comparison hw _ hop _ hvalue =>
    cases ht with
    | comparison =>
      refine ⟨?_, hop, ?_⟩
      · rwa [String.toList_ofList]
      · rw [String.toList_ofList]
        exact hvalue.unquoted
  | call _ _ hcs => exact hargs ht hcs.unquoted
  | openCall _ _ hcs => exact hargs ht hcs.unquoted

theorem Derives.spelled {level : Level} {n : Nat} (h : Derives alphabet level n o e cs ast) : Spelled alphabet ast := by
  induction h with
  | lexeme h ht => exact h.spelled ht
  | group _ ih => exact ih
  | primary _ ih => exact ih
  | not _ ih => exact ih
  | operandAnd _ ih => exact ih
  | and _ _ _ ihleft ihright => exact ⟨ihleft, ihright⟩
  | operandOr _ ih => exact ih
  | or _ _ _ ihleft ihright => exact ⟨ihleft, ihright⟩
  | before _ _ ih => exact ih
  | after _ _ _ ih => exact ih

theorem parse_length {text : String} (h : parse alphabet text = .ok ast) :
    byteLength text.toList ≤ maxConditionInputBytes := by
  by_contra hlong
  rw [parse, tokenize, if_pos (Nat.lt_of_not_le hlong)] at h
  cases h

theorem parse_spelled {text : String} (h : parse alphabet text = .ok ast) : Spelled alphabet ast := by
  obtain ⟨o, e, hderives⟩ := (parse_eq_ok_iff (parse_length h)).mp h
  exact hderives.spelled

end Spelled

/-! ### Printed tokens -/

namespace ConditionAst

/-- Every value is made of characters that need no quotes. -/
def BareValues (alphabet : Alphabet) : ConditionAst → Prop
  | .comparison _ _ value => ∀ c ∈ value.toList, isBare alphabet c = true
  | .hasField _ | .fieldChanged _ | .fieldChangedTo _ _ | .fieldChangedFrom _ _ => True
  | .and left right | .or left right => left.BareValues alphabet ∧ right.BareValues alphabet
  | .not expr => expr.BareValues alphabet

/-- How deep a printed condition is nested. -/
def nesting : ConditionAst → Nat
  | .and left right | .or left right => max left.nesting right.nesting + 1
  | .not expr => expr.nesting + 2
  | _ => 0

/-- The token of a comparison or a call. -/
def token : ConditionAst → Token
  | .comparison field op value => .comparison field op value
  | .hasField field => .function "has_field" [field]
  | .fieldChanged field => .function "field_changed" [field]
  | .fieldChangedTo field value => .function "field_changed_to" [field, value]
  | .fieldChangedFrom field value => .function "field_changed_from" [field, value]
  | .and _ _ => .and
  | .or _ _ => .or
  | .not _ => .not

/-- The tokens of a printed condition. -/
def tokens : ConditionAst → List Token
  | .and left right => .lparen :: (left.tokens ++ .rparen :: .and :: .lparen :: (right.tokens ++ [.rparen]))
  | .or left right => .lparen :: (left.tokens ++ .rparen :: .or :: .lparen :: (right.tokens ++ [.rparen]))
  | .not expr => .not :: .lparen :: (expr.tokens ++ [.rparen])
  | ast => [ast.token]

/-- The comparisons and calls of a condition, from left to right. -/
def leaves : ConditionAst → List Token
  | .and left right | .or left right => left.leaves ++ right.leaves
  | .not expr => expr.leaves
  | ast => [ast.token]

end ConditionAst

/-- What is printed of a tree can be read again. -/
structure Printable (alphabet : Alphabet) (ast : ConditionAst) : Prop where
  bare : ast.BareValues alphabet
  nested : ast.nesting ≤ maxConditionDepth
  short : byteLength ast.display.toList ≤ maxConditionInputBytes

section Printed

variable {alphabet : Alphabet} {ast left right : ConditionAst} {n : Nat}

variable {ts : List Token}

theorem Phrase.grouped (h : Phrase .or n ts ast) :
    Phrase .not (n + 1) (.lparen :: (ts ++ [.rparen])) ast := .primary (.group h)

/-- The tokens of a printed condition are a phrase with that condition. -/
theorem tokens_phrase (h : ast.nesting ≤ n) : Phrase .or n ast.tokens ast := by
  induction ast generalizing n with
  | comparison => exact .operandOr (.operandAnd (.primary (.token (.comparison _ _ _))))
  | hasField => exact .operandOr (.operandAnd (.primary (.token (.hasField _))))
  | fieldChanged => exact .operandOr (.operandAnd (.primary (.token (.fieldChanged _))))
  | fieldChangedTo => exact .operandOr (.operandAnd (.primary (.token (.fieldChangedTo _ _))))
  | fieldChangedFrom => exact .operandOr (.operandAnd (.primary (.token (.fieldChangedFrom _ _))))
  | and left right ihleft ihright =>
    obtain ⟨m, rfl⟩ : ∃ m, n = m + 1 := ⟨n - 1, by rw [nesting] at h; omega⟩
    rw [nesting, Nat.add_le_add_iff_right, Nat.max_le] at h
    have hboth := Phrase.and (.operandAnd (ihleft h.1).grouped) (ihright h.2).grouped
    rw [cons_append, append_assoc] at hboth
    exact .operandOr hboth
  | or left right ihleft ihright =>
    obtain ⟨m, rfl⟩ : ∃ m, n = m + 1 := ⟨n - 1, by rw [nesting] at h; omega⟩
    rw [nesting, Nat.add_le_add_iff_right, Nat.max_le] at h
    have hboth := Phrase.or (.operandOr (.operandAnd (ihleft h.1).grouped)) (.operandAnd (ihright h.2).grouped)
    rw [cons_append, append_assoc] at hboth
    exact hboth
  | not expr ih =>
    obtain ⟨m, rfl⟩ : ∃ m, n = m + 2 := ⟨n - 2, by rw [nesting] at h; omega⟩
    rw [nesting, Nat.add_le_add_iff_right] at h
    exact .operandOr (.operandAnd (.not (ih h).grouped))

/-! ### Printed texts -/

theorem spaces_one : Spaces [' '] := by simp [Spaces, isWhitespace]

theorem spaces_none : Spaces [] := nofun

theorem display_comparison (field op value : String) : (comparison field op value).display.toList =
    field.toList ++ ([' '] ++ (op.toList ++ ([' '] ++ value.toList))) := by
  have htext : (comparison field op value).display = s!"{field} {op} {value}" := rfl
  rw [htext]
  simp [toString]

/-- The text of a call with its arguments. -/
def callText (name : String) (text : List Char) : List Char := name.toList ++ ([] ++ '(' :: (text ++ [')']))

/-- The text of one argument, and of two. -/
def argText (a : String) : List Char := [] ++ '\'' :: (a.toList ++ '\'' :: [])

def argsText (a b : String) : List Char :=
  [] ++ '\'' :: (a.toList ++ '\'' :: ([] ++ ',' :: ([' '] ++ '\'' :: (b.toList ++ '\'' :: []))))

theorem display_hasField (field : String) :
    (hasField field).display.toList = callText "has_field" (argText field) := by
  have htext : (hasField field).display = s!"has_field('{field}')" := rfl
  rw [htext]
  simp [toString, callText, argText]

theorem display_fieldChanged (field : String) :
    (fieldChanged field).display.toList = callText "field_changed" (argText field) := by
  have htext : (fieldChanged field).display = s!"field_changed('{field}')" := rfl
  rw [htext]
  simp [toString, callText, argText]

theorem display_fieldChangedTo (field value : String) :
    (fieldChangedTo field value).display.toList = callText "field_changed_to" (argsText field value) := by
  have htext : (fieldChangedTo field value).display = s!"field_changed_to('{field}', '{value}')" := rfl
  rw [htext]
  simp [toString, callText, argsText]

theorem display_fieldChangedFrom (field value : String) :
    (fieldChangedFrom field value).display.toList =
      callText "field_changed_from" (argsText field value) := by
  have htext : (fieldChangedFrom field value).display = s!"field_changed_from('{field}', '{value}')" := rfl
  rw [htext]
  simp [toString, callText, argsText]

/-- The text of an operator with both operands in parentheses. -/
def operandsText (operator : List Char) (left right : ConditionAst) : List Char :=
  '(' :: (left.display.toList ++ ')' :: ' ' :: (operator ++ ' ' :: '(' :: (right.display.toList ++ [')'])))

theorem display_and : (and left right).display.toList = operandsText ['&', '&'] left right := by
  have htext : (and left right).display = "(" ++ left.display ++ ") && (" ++ right.display ++ ")" := rfl
  rw [htext]
  simp [operandsText]

theorem display_or : (or left right).display.toList = operandsText ['|', '|'] left right := by
  have htext : (or left right).display = "(" ++ left.display ++ ") || (" ++ right.display ++ ")" := rfl
  rw [htext]
  simp [operandsText]

theorem display_not : ast.not.display.toList = '!' :: '(' :: (ast.display.toList ++ [')']) := by
  have htext : ast.not.display = "!(" ++ ast.display ++ ")" := rfl
  rw [htext]
  simp

theorem argText_args {a : String} (h : Unquoted a.toList) : ArgsText .call (argText a) [a] := by
  have htext := ArgsText.last spaces_none h spaces_none
  rwa [String.ofList_toList] at htext

theorem argsText_args {a b : String} (ha : Unquoted a.toList) (hb : Unquoted b.toList) :
    ArgsText .call (argsText a b) [a, b] := by
  have htext := ArgsText.more spaces_none ha spaces_none (.last spaces_one hb spaces_none)
  rwa [String.ofList_toList, String.ofList_toList] at htext

/-- The names of the functions are identifiers, whatever Unicode's other letters are. -/
theorem isIdentifier_ascii {w : List Char} (h : IsIdentifier asciiAlphabet w)
    (hall : (w.all fun c => decide (c.toNat < 128)) = true) : IsIdentifier alphabet w := by
  have hascii : ∀ c ∈ w, c.toNat < 128 := fun c hc => of_decide_eq_true (all_eq_true.mp hall c hc)
  obtain ⟨c, hc, hstart⟩ := h.starts
  refine ⟨⟨c, hc, ?_⟩, ?_⟩
  · rw [isIdentStart, alphabet.ascii_alphabetic c (hascii c (mem_of_mem_head? hc))]
    exact hstart
  · intro d hd
    rw [isIdent, alphabet.ascii_alphanumeric d (hascii d hd)]
    exact h.continues d hd

theorem callText_lexeme {name : String} {text : List Char} {args : List String}
    (hname : name ∈ ["has_field", "field_changed", "field_changed_to", "field_changed_from"])
    (hargs : ArgsText .call text args) : Lexeme alphabet false .plain (callText name text) (.function name args) := by
  have hident : IsIdentifier alphabet name.toList := by
    simp only [mem_cons, not_mem_nil, or_false] at hname
    rcases hname with rfl | rfl | rfl | rfl
    · exact isIdentifier_ascii ⟨⟨_, rfl, by decide⟩, all_eq_true.mp (by decide)⟩ (by decide)
    · exact isIdentifier_ascii ⟨⟨_, rfl, by decide⟩, all_eq_true.mp (by decide)⟩ (by decide)
    · exact isIdentifier_ascii ⟨⟨_, rfl, by decide⟩, all_eq_true.mp (by decide)⟩ (by decide)
    · exact isIdentifier_ascii ⟨⟨_, rfl, by decide⟩, all_eq_true.mp (by decide)⟩ (by decide)
  have hlexeme := Lexeme.call hident spaces_none hargs
  rwa [String.ofList_toList] at hlexeme

variable {t : Token}

/-- A printed comparison or call, as far as its value is bare. -/
theorem leaf_lexeme (ht : TokenTree t ast) (hspelled : Spelled alphabet ast)
    (hbare : ast.BareValues alphabet) : ∃ o, Lexeme alphabet o .plain ast.display.toList t := by
  cases ht with
  | comparison field op value =>
    obtain ⟨hfield, hop, -⟩ := hspelled
    have hvalue : ∃ o, ValueText alphabet o .plain value.toList value.toList := by
      by_cases hne : value.toList = []
      · rw [hne]
        exact ⟨true, .missing⟩
      · exact ⟨false, .bare hne hbare⟩
    obtain ⟨o, hvalue⟩ := hvalue
    have hlexeme := Lexeme.comparison hfield spaces_one hop spaces_one hvalue
    rw [String.ofList_toList, String.ofList_toList] at hlexeme
    rw [display_comparison]
    exact ⟨o, hlexeme⟩
  | hasField field =>
    rw [display_hasField]
    exact ⟨false, callText_lexeme (by simp) (argText_args hspelled)⟩
  | fieldChanged field =>
    rw [display_fieldChanged]
    exact ⟨false, callText_lexeme (by simp) (argText_args hspelled)⟩
  | fieldChangedTo field value =>
    rw [display_fieldChangedTo]
    exact ⟨false, callText_lexeme (by simp) (argsText_args hspelled.1 hspelled.2)⟩
  | fieldChangedFrom field value =>
    rw [display_fieldChangedFrom]
    exact ⟨false, callText_lexeme (by simp) (argsText_args hspelled.1 hspelled.2)⟩

theorem isBlank_space : isBlank ' ' = true := rfl

/-- A printed operand in its parentheses. -/
def operandText (ast : ConditionAst) : List Char := '(' :: (ast.display.toList ++ [')'])

theorem operandText_derives {o : Bool} (h : Derives alphabet .or n o .plain ast.display.toList ast) :
    Derives alphabet .not (n + 1) o .plain (operandText ast) ast := .primary h.group

theorem operandsText_eq (c : Char) :
    operandsText [c, c] left right = (operandText left ++ [' ']) ++ c :: c :: (' ' :: operandText right) := by
  simp [operandsText, operandText]

/-- A printed condition with bare values is derived. -/
theorem display_derives (hspelled : Spelled alphabet ast) (hbare : ast.BareValues alphabet) (h : ast.nesting ≤ n) :
    ∃ o, Derives alphabet .or n o .plain ast.display.toList ast := by
  have hleaf : ∀ {n : Nat} {t : Token} {ast : ConditionAst}, TokenTree t ast → Spelled alphabet ast →
      ast.BareValues alphabet → ∃ o, Derives alphabet .or n o .plain ast.display.toList ast := by
    intro n t ast ht hspelled hbare
    obtain ⟨o, hlexeme⟩ := leaf_lexeme ht hspelled hbare
    exact ⟨o, .operandOr (.operandAnd (.primary (.lexeme hlexeme ht)))⟩
  induction ast generalizing n with
  | comparison => exact hleaf (.comparison _ _ _) hspelled hbare
  | hasField => exact hleaf (.hasField _) hspelled hbare
  | fieldChanged => exact hleaf (.fieldChanged _) hspelled hbare
  | fieldChangedTo => exact hleaf (.fieldChangedTo _ _) hspelled hbare
  | fieldChangedFrom => exact hleaf (.fieldChangedFrom _ _) hspelled hbare
  | and left right ihleft ihright =>
    obtain ⟨m, rfl⟩ : ∃ m, n = m + 1 := ⟨n - 1, by rw [nesting] at h; omega⟩
    rw [nesting, Nat.add_le_add_iff_right, Nat.max_le] at h
    obtain ⟨o, hleft⟩ := ihleft hspelled.1 hbare.1 h.1
    obtain ⟨o', hright⟩ := ihright hspelled.2 hbare.2 h.2
    have hfirst := (Derives.operandAnd (operandText_derives hleft)).after (by simp) isBlank_space
    rw [display_and, operandsText_eq]
    exact ⟨_, .operandOr (.and hfirst (by simp) (.before isBlank_space (operandText_derives hright)))⟩
  | or left right ihleft ihright =>
    obtain ⟨m, rfl⟩ : ∃ m, n = m + 1 := ⟨n - 1, by rw [nesting] at h; omega⟩
    rw [nesting, Nat.add_le_add_iff_right, Nat.max_le] at h
    obtain ⟨o, hleft⟩ := ihleft hspelled.1 hbare.1 h.1
    obtain ⟨o', hright⟩ := ihright hspelled.2 hbare.2 h.2
    have hfirst := (Derives.operandOr (.operandAnd (operandText_derives hleft))).after (by simp) isBlank_space
    rw [display_or, operandsText_eq]
    exact ⟨_, .or hfirst (by simp) (.before isBlank_space (.operandAnd (operandText_derives hright)))⟩
  | not expr ih =>
    obtain ⟨m, rfl⟩ : ∃ m, n = m + 2 := ⟨n - 2, by rw [nesting] at h; omega⟩
    rw [nesting, Nat.add_le_add_iff_right] at h
    obtain ⟨o, hexpr⟩ := ih hspelled hbare h
    rw [display_not]
    exact ⟨o, .operandOr (.operandAnd (.not (operandText_derives hexpr)))⟩

/-! ### Printed conditions nested too deep -/

/-- The parser returns nothing on the tokens. -/
def Fails (p : Parser) (ts : List Token) : Prop := ∀ r, p ts ≠ .ok r

variable {node : ConditionAst → ConditionAst → ConditionAst}

theorem parseJoined_fails {operator : Token} {operand : Parser}
    (h : Fails operand ts) : Fails (parseJoined operator node operand) ts := by
  intro r hok
  rw [parseJoined] at hok
  split at hok
  · cases hok
  · rename_i left rest hleft
    exact h _ hleft

theorem parseJoined_fails_later {operator : Token}
    {operand : Parser} {us : List Token} (h : operand ts = .ok (left, operator :: us)) (hfails : Fails operand us) :
    Fails (parseJoined operator node operand) ts := by
  intro r hok
  have hhead : (operator :: us).head? = some operator := rfl
  rw [parseJoined_first h, length_cons, parseOperands, if_pos hhead] at hok
  split at hok
  · cases hok
  · rename_i right rest hright
    exact hfails _ hright

theorem parseOr_fails {p : Parser} (h : Fails p ts) : Fails (parseOr p) ts :=
  parseJoined_fails (parseJoined_fails h)

variable {levels : Nat}

theorem parseGroup_fails (h : Fails (parseOr (parseNot levels)) ts) :
    Fails (parseNot (levels + 1)) (.lparen :: ts) := by
  intro r hok
  rw [parseNot_primary (by simp), parsePrimary] at hok
  split at hok
  · cases hok
  · rename_i ast rest hinner
    exact h _ hinner
  · cases hok

theorem parseNot_fails (h : Fails (parseNot levels) ts) : Fails (parseNot (levels + 1)) (.not :: ts) := by
  intro r hok
  obtain ⟨inner, hinner, -⟩ := Outcome.map_eq_ok.mp hok
  exact h _ hinner

/-- An operand that is not nested too deep is read from its parentheses. -/
theorem operand_reads (h : ast.nesting < levels) (rest : List Token) :
    parseNot (levels + 1) (.lparen :: (ast.tokens ++ .rparen :: rest)) = .ok (ast, rest) := by
  obtain ⟨k, rfl⟩ : ∃ k, levels = k + 1 := ⟨levels - 1, by omega⟩
  have hread := phrase_reads (tokens_phrase (Nat.lt_succ_iff.mp h)).grouped rest
  rwa [cons_append, append_assoc] at hread

/-- Tokens nested deeper than the levels left are not parsed. -/
theorem tokens_fails (h : levels ≤ ast.nesting) (rest : List Token) :
    Fails (parseOr (parseNot levels)) (ast.tokens ++ rest) := by
  have hzero : ∀ ts, Fails (parseOr (parseNot 0)) ts := fun ts => parseOr_fails (by rintro _ ⟨⟩)
  induction ast generalizing levels rest with
  | and left right ihleft ihright =>
    cases levels with
    | zero => exact hzero _
    | succ m =>
      rw [tokens, cons_append, append_assoc]
      by_cases hleft : m ≤ left.nesting
      · exact parseOr_fails (parseGroup_fails (ihleft hleft _))
      · have hright : m ≤ right.nesting := by
          rw [nesting] at h
          omega
        have hfirst := operand_reads (Nat.lt_of_not_le hleft) (.and :: .lparen :: (right.tokens ++ .rparen :: rest))
        have hsecond := parseGroup_fails (ihright hright (.rparen :: rest))
        have hall : Fails (parseOr (parseNot (m + 1))) (.lparen :: (left.tokens ++ .rparen :: .and :: .lparen ::
            (right.tokens ++ .rparen :: rest))) := parseJoined_fails (parseJoined_fails_later hfirst hsecond)
        simpa using hall
  | or left right ihleft ihright =>
    cases levels with
    | zero => exact hzero _
    | succ m =>
      rw [tokens, cons_append, append_assoc]
      by_cases hleft : m ≤ left.nesting
      · exact parseOr_fails (parseGroup_fails (ihleft hleft _))
      · have hright : m ≤ right.nesting := by
          rw [nesting] at h
          omega
        have hfirst := operand_reads (Nat.lt_of_not_le hleft) (.or :: .lparen :: (right.tokens ++ .rparen :: rest))
        have hsecond := parseGroup_fails (ihright hright (.rparen :: rest))
        have hand : parseAnd (parseNot (m + 1)) (.lparen :: (left.tokens ++ .rparen :: .or :: .lparen ::
            (right.tokens ++ .rparen :: rest))) = .ok (left, .or :: .lparen :: (right.tokens ++ .rparen :: rest)) := by
          rw [parseAnd, parseJoined_first hfirst]
          exact parseOperands_stop _ _ (by simp)
        have hall : Fails (parseOr (parseNot (m + 1))) (.lparen :: (left.tokens ++ .rparen :: .or :: .lparen ::
            (right.tokens ++ .rparen :: rest))) := parseJoined_fails_later hand (parseJoined_fails hsecond)
        simpa using hall
  | not expr ih =>
    cases levels with
    | zero => exact hzero _
    | succ levels =>
      cases levels with
      | zero => exact parseOr_fails (parseNot_fails (by rintro _ ⟨⟩))
      | succ m =>
        have hm : m ≤ expr.nesting := by
          rw [nesting] at h
          omega
        have hinner := ih hm (.rparen :: rest)
        have hall := parseOr_fails (parseNot_fails (parseGroup_fails hinner))
        simpa [tokens] using hall
  | _ =>
    obtain rfl := Nat.le_zero.mp h
    exact hzero _

/-! ### Comparisons and calls in their order -/

def Token.isLeaf : Token → Bool
  | .comparison _ _ _ | .function _ _ => true
  | _ => false

/-- The tree of a phrase has its comparisons and calls, in their order. -/
theorem Phrase.leaves {level : Level} (h : Phrase level n ts ast) : ts.filter Token.isLeaf = ast.leaves := by
  induction h with
  | token ht => cases ht <;> rfl
  | group _ ih =>
    rw [filter_cons_of_neg (by simp [Token.isLeaf]), filter_append, ih]
    exact append_nil _
  | primary _ ih => exact ih
  | not _ ih =>
    rw [filter_cons_of_neg (by simp [Token.isLeaf]), ih]
    rfl
  | operandAnd _ ih => exact ih
  | and _ _ ihleft ihright =>
    rw [filter_append, filter_cons_of_neg (by simp [Token.isLeaf]), ihleft, ihright]
    rfl
  | operandOr _ ih => exact ih
  | or _ _ ihleft ihright =>
    rw [filter_append, filter_cons_of_neg (by simp [Token.isLeaf]), ihleft, ihright]
    rfl

theorem tokens_leaves (ast : ConditionAst) : ast.tokens.filter Token.isLeaf = ast.leaves :=
  (tokens_phrase (Nat.le_refl _)).leaves

variable {cs : List Char}

theorem Scans.of_token {rest : List Char} {us : List Token} {o : Bool}
    (h : Scans alphabet cs us o) (hstep : Step alphabet cs (some t) rest) :
    ∃ us' o', us = t :: us' ∧ Scans alphabet rest us' o' := by
  cases h with
  | nil => cases hstep
  | skip hstep' => exact nomatch (hstep'.unique hstep).1
  | token hstep' hrest =>
    obtain ⟨htoken, rfl⟩ := hstep'.unique hstep
    obtain rfl := some.inj htoken
    exact ⟨_, _, rfl, hrest⟩

theorem Scans.of_blank {c : Char} {us : List Token} {o : Bool}
    (h : Scans alphabet (c :: cs) us o) (hc : isBlank c = true) : Scans alphabet cs us o := by
  cases h with
  | skip hstep hrest =>
    obtain ⟨-, rfl⟩ := hstep.unique (.blank hc)
    exact hrest
  | token hstep => exact nomatch (hstep.unique (.blank hc)).1

theorem Scans.before_blanks {us : List Token} {o : Bool} (h : Scans alphabet (skipBlanks cs) us o) :
    Scans alphabet cs us o := by
  induction cs with
  | nil => exact h
  | cons c cs ih =>
    cases hc : isBlank c with
    | true =>
      have hskip : skipBlanks (c :: cs) = skipBlanks cs := dropWhile_cons_of_pos hc
      rw [hskip] at h
      exact .skip (.blank hc) (ih h)
    | false =>
      have hskip : skipBlanks (c :: cs) = c :: cs := dropWhile_cons_of_neg (by simp [hc])
      rwa [hskip] at h

theorem Step.of_lexIdent {w x rest : List Char} (hw : IsIdentifier alphabet w)
    (h : lexIdent alphabet (w ++ x) = .ok (t, rest)) : Step alphabet (w ++ x) (some t) rest := by
  obtain ⟨c, hc, hstart⟩ := hw.starts
  cases w with
  | nil => cases hc
  | cons d w =>
    obtain rfl := some.inj hc
    exact .ident hstart h

/-- A printed tree is read back and what follows it by itself, or a value is cut and the comparisons and calls that
are read are not those that were printed. -/
def ReadBack (alphabet : Alphabet) (ast : ConditionAst) (rest : List Char) (us : List Token) : Prop :=
  (ast.BareValues alphabet ∧ ∃ us' o, us = ast.tokens ++ us' ∧ Scans alphabet rest us' o) ∨
    (¬ ast.BareValues alphabet ∧ ¬ ast.leaves <+: us.filter Token.isLeaf)

variable {rest : List Char} {us : List Token} {o : Bool}

theorem leaf_readBack (ht : TokenTree t ast) (hspelled : Spelled alphabet ast)
    (hbare : ast.BareValues alphabet) (hfollow : Follow .plain rest)
    (h : Scans alphabet (ast.display.toList ++ rest) us o) : ReadBack alphabet ast rest us := by
  obtain ⟨o', hlexeme⟩ := leaf_lexeme ht hspelled hbare
  have hargs : ∀ name args, t = .function name args → args.length ≤ maxConditionFunctionArgs := by
    rintro name args rfl
    exact ht.args_length.2.trans (by decide)
  obtain ⟨rest', hlex, hresumes, -⟩ := lexIdent_complete hlexeme hargs hfollow
  obtain ⟨c, x, hhead, hc⟩ := hlexeme.head
  rw [hhead] at hlex h
  obtain ⟨us', o'', rfl, hrest⟩ := h.of_token (.ident hc hlex)
  have htokens : ast.tokens = [t] := by cases ht <;> rfl
  refine .inl ⟨hbare, us', o'', by rw [htokens]; rfl, ?_⟩
  rcases hresumes with rfl | rfl
  · exact hrest
  · exact hrest.before_blanks

/-- A value without a quote is not read as a quoted one, whatever white space it begins with. -/
theorem value_not_quoted {value : List Char} (hvalue : Unquoted value) (hfollow : Follow .plain rest) :
    (skipWhitespace (value ++ rest)).head? ≠ some '\'' := by
  rw [skipWhitespace, dropWhile_append]
  split
  · rw [← skipWhitespace, skipBlanks_eq hfollow]
    intro hquote
    rcases hfollow _ hquote with h | h | h <;> cases h
  · rename_i hne
    intro hquote
    cases hdrop : value.dropWhile isWhitespace with
    | nil =>
      rw [hdrop] at hne
      exact hne rfl
    | cons c x =>
      rw [hdrop] at hquote
      obtain rfl := some.inj hquote
      have hmem : '\'' ∈ value := (dropWhile_suffix isWhitespace).subset (by rw [hdrop]; exact mem_cons_self)
      exact absurd (hvalue _ hmem) (by decide)

/-- A value that would need quotes is cut. -/
theorem comparison_readBack {field op value : String} (hspelled : Spelled alphabet (.comparison field op value))
    (hbare : ¬ (comparison field op value).BareValues alphabet) (hfollow : Follow .plain rest)
    (h : Scans alphabet ((comparison field op value).display.toList ++ rest) us o) :
    ReadBack alphabet (.comparison field op value) rest us := by
  obtain ⟨hfield, hop, hvalue⟩ := hspelled
  have hspace : ∀ c ∈ (' ' :: (value.toList ++ rest)).head?, isOperator c = false := by
    intro c hc
    obtain rfl := some.inj hc
    rfl
  have hskip : skipWhitespace (' ' :: (value.toList ++ rest)) = skipWhitespace (value.toList ++ rest) :=
    skipWhitespace_spaces spaces_one _
  obtain ⟨hlex, -⟩ := lexIdent_operator hfield spaces_one hop hspace
  rw [hskip, takeValue_bare (value_not_quoted hvalue hfollow), String.ofList_toList] at hlex
  rw [display_comparison] at h
  simp only [append_assoc] at h
  obtain ⟨us', o', rfl, -⟩ := h.of_token (.of_lexIdent hfield hlex)
  refine .inr ⟨hbare, ?_⟩
  rw [filter_cons_of_pos (by rfl)]
  intro hprefix
  have hfirst := (cons_prefix_cons.mp hprefix).1
  apply hbare
  intro d hd
  have hsame : value = String.ofList ((skipWhitespace (value.toList ++ rest)).takeWhile (isBare alphabet)) :=
    (Token.comparison.inj hfirst).2.2
  rw [hsame, String.toList_ofList] at hd
  exact mem_takeWhile_imp hd

theorem follow_paren (rest : List Char) : Follow .plain (')' :: rest) := by
  intro c hc
  obtain rfl := some.inj hc
  exact .inl rfl

/-- A printed operand in parentheses: what is read of it, and what is left behind it. -/
theorem operand_readBack (ih : ∀ {rest us o}, Follow .plain rest → Scans alphabet (ast.display.toList ++ rest) us o →
      ReadBack alphabet ast rest us) (h : Scans alphabet ('(' :: (ast.display.toList ++ ')' :: rest)) us o) :
    (ast.BareValues alphabet ∧ ∃ us' o', us = .lparen :: (ast.tokens ++ .rparen :: us') ∧ Scans alphabet rest us' o') ∨
      (¬ ast.BareValues alphabet ∧ ¬ ast.leaves <+: us.filter Token.isLeaf) := by
  obtain ⟨vs, o₁, rfl, hinner⟩ := h.of_token .lparen
  rcases ih (follow_paren rest) hinner with ⟨hbare, ws, o₂, rfl, hclose⟩ | ⟨hbare, hleaves⟩
  · obtain ⟨us', o₃, rfl, hrest⟩ := hclose.of_token .rparen
    exact .inl ⟨hbare, us', o₃, rfl, hrest⟩
  · refine .inr ⟨hbare, ?_⟩
    rw [filter_cons_of_neg (by simp [Token.isLeaf])]
    exact hleaves

/-- Two printed operands with an operator between them. -/
theorem operands_readBack {c : Char} (hstep : ∀ cs, Step alphabet (c :: c :: cs) (some t) cs) (ht : t.isLeaf = false)
    (ihleft : ∀ {rest us o}, Follow .plain rest → Scans alphabet (left.display.toList ++ rest) us o →
      ReadBack alphabet left rest us)
    (ihright : ∀ {rest us o}, Follow .plain rest → Scans alphabet (right.display.toList ++ rest) us o →
      ReadBack alphabet right rest us)
    (h : Scans alphabet (operandsText [c, c] left right ++ rest) us o) :
    ((left.BareValues alphabet ∧ right.BareValues alphabet) ∧ ∃ us' o',
        us = .lparen :: (left.tokens ++ .rparen :: t :: .lparen :: (right.tokens ++ [.rparen])) ++ us' ∧
        Scans alphabet rest us' o') ∨
      (¬ (left.BareValues alphabet ∧ right.BareValues alphabet) ∧
        ¬ left.leaves ++ right.leaves <+: us.filter Token.isLeaf) := by
  have htext : operandsText [c, c] left right ++ rest = '(' :: (left.display.toList ++ ')' ::
      (' ' :: c :: c :: ' ' :: '(' :: (right.display.toList ++ ')' :: rest))) := by
    simp [operandsText]
  rw [htext] at h
  rcases operand_readBack ihleft h with ⟨hleft, vs, o₁, rfl, hnext⟩ | ⟨hleft, hleaves⟩
  · obtain ⟨ws, o₂, rfl, hsecond⟩ := (hnext.of_blank isBlank_space).of_token (hstep _)
    rcases operand_readBack ihright (hsecond.of_blank isBlank_space) with
      ⟨hright, us', o₃, rfl, hrest⟩ | ⟨hright, hleaves⟩
    · refine .inl ⟨⟨hleft, hright⟩, us', o₃, ?_, hrest⟩
      simp
    · refine .inr ⟨fun hboth => hright hboth.2, ?_⟩
      have hfilter : (Token.lparen :: (left.tokens ++ .rparen :: t :: ws)).filter Token.isLeaf =
          left.leaves ++ ws.filter Token.isLeaf := by
        rw [filter_cons_of_neg (by simp [Token.isLeaf]), filter_append, tokens_leaves,
          filter_cons_of_neg (by simp [Token.isLeaf]), filter_cons_of_neg (by simp [ht])]
      rw [hfilter, prefix_append_right_inj]
      exact hleaves
  · refine .inr ⟨fun hboth => hleft hboth.1, ?_⟩
    intro hprefix
    exact hleaves ((prefix_append _ _).trans hprefix)

/-- Reading a printed tree finds every value that would need quotes. -/
theorem display_readBack (hspelled : Spelled alphabet ast) (hfollow : Follow .plain rest)
    (h : Scans alphabet (ast.display.toList ++ rest) us o) : ReadBack alphabet ast rest us := by
  induction ast generalizing rest us o with
  | comparison field op value =>
    by_cases hbare : (comparison field op value).BareValues alphabet
    · exact leaf_readBack (.comparison _ _ _) hspelled hbare hfollow h
    · exact comparison_readBack hspelled hbare hfollow h
  | hasField => exact leaf_readBack (.hasField _) hspelled trivial hfollow h
  | fieldChanged => exact leaf_readBack (.fieldChanged _) hspelled trivial hfollow h
  | fieldChangedTo => exact leaf_readBack (.fieldChangedTo _ _) hspelled trivial hfollow h
  | fieldChangedFrom => exact leaf_readBack (.fieldChangedFrom _ _) hspelled trivial hfollow h
  | and left right ihleft ihright =>
    rw [display_and] at h
    exact operands_readBack (fun _ => .and) rfl (ihleft hspelled.1) (ihright hspelled.2) h
  | or left right ihleft ihright =>
    rw [display_or] at h
    exact operands_readBack (fun _ => .or) rfl (ihleft hspelled.1) (ihright hspelled.2) h
  | not expr ih =>
    have htext : expr.not.display.toList ++ rest = '!' :: '(' :: (expr.display.toList ++ ')' :: rest) := by
      rw [display_not]
      simp
    rw [htext] at h
    obtain ⟨vs, o₁, rfl, hoperand⟩ := h.of_token (.not (by simp))
    rcases operand_readBack (ih hspelled) hoperand with ⟨hbare, us', o₂, rfl, hrest⟩ | ⟨hbare, hleaves⟩
    · refine .inl ⟨hbare, us', o₂, ?_, hrest⟩
      simp [tokens]
    · refine .inr ⟨hbare, ?_⟩
      rw [filter_cons_of_neg (by simp [Token.isLeaf])]
      exact hleaves

/-- A printed tree that was read before is read back exactly when its values are bare, its nesting is within the limit
and its text within its own. -/
theorem display_round_trip_iff {text : String} (h : parse alphabet text = .ok ast) :
    parse alphabet ast.display = .ok ast ↔ Printable alphabet ast := by
  have hspelled := parse_spelled h
  constructor
  · intro hback
    have hshort := parse_length hback
    obtain ⟨ts, o, hscans, hphrase⟩ := (parse_eq_ok_iff_scans hshort).mp hback
    rw [← append_nil ast.display.toList] at hscans
    have hend : Follow .plain [] := by
      intro c hc
      cases hc
    rcases display_readBack hspelled hend hscans with ⟨hbare, us', o', rfl, hrest⟩ | ⟨-, hleaves⟩
    · refine ⟨hbare, ?_, hshort⟩
      obtain ⟨rfl, -⟩ := hrest.unique .nil
      by_contra hdeep
      have hread := phrase_reads hphrase [] (by simp)
      rw [parseOperands_stop _ _ (by simp), append_assoc] at hread
      exact tokens_fails (Nat.lt_of_not_le hdeep) _ _ hread
    · rw [hphrase.leaves] at hleaves
      exact absurd (prefix_refl _) hleaves
  · intro hprintable
    obtain ⟨o, hderives⟩ := display_derives hspelled hprintable.bare hprintable.nested
    exact (parse_eq_ok_iff hprintable.short).mpr ⟨o, _, hderives⟩

theorem display_round_trip_grouped : parse asciiAlphabet
    (ConditionAst.and (.comparison "total" ">" "100") (.not (.hasField "deleted_at"))).display =
      .ok (.and (.comparison "total" ">" "100") (.not (.hasField "deleted_at"))) := by
  have hread : parse asciiAlphabet "total > 100 && !has_field('deleted_at')" =
      .ok (.and (.comparison "total" ">" "100") (.not (.hasField "deleted_at"))) := rfl
  have hbare : ∀ c ∈ "100".toList, isBare asciiAlphabet c = true := all_eq_true.mp (by decide)
  exact (display_round_trip_iff hread).mpr ⟨⟨hbare, trivial⟩, by decide, by decide⟩

/-- A value with a blank is printed without its quotes and cut at the blank. -/
theorem display_cuts_value : parse asciiAlphabet "status == 'in progress'" =
      .ok (.comparison "status" "==" "in progress") ∧
    parse asciiAlphabet (ConditionAst.comparison "status" "==" "in progress").display ≠
      .ok (.comparison "status" "==" "in progress") := by
  have hback : parse asciiAlphabet (comparison "status" "==" "in progress").display =
      invalid "Unknown token: progress" := rfl
  refine ⟨rfl, ?_⟩
  rw [hback]
  exact nofun

end Printed

end FraiseQL.ConditionDsl
