import FraiseQL.Error
import FraiseQL.MarkedBrackets

/-! The check of regular expressions before they go into SQL (`where_generator/generic.rs`), beside a reading of
them as advanced regular expressions: escapes, bracket expressions, groups and unbounded quantifiers, without embedded
options and comments. -/

namespace FraiseQL.RegexGuard

open Brackets List

def maxRegexPatternLen : Nat := 1000

def tooLong : FraiseQLError :=
  .validation ("Regex pattern exceeds maximum length of " ++ toString maxRegexPatternLen ++ " bytes") none

def nestedQuantifiers : FraiseQLError :=
  .validation ("Regex pattern contains nested quantifiers (potential ReDoS). Simplify the pattern to avoid " ++
    "`(…+)+`, `(…*)*`, or similar constructs.") none

def isQuantifier (b : Char) : Bool := b = '+' || b = '*' || b = '?' || b = '\x7b'

/-- The loop of `validate_regex_pattern` behind the previous byte. Each byte it looks for is a character of its
own. -/
def scan (previous : Option Char) (depth : Int) (groupHasQuantifier : List Bool) :
    List Char → Except FraiseQLError Unit
  | [] => .ok ()
  | b :: rest =>
    if previous = some '\\' then scan (some b) depth groupHasQuantifier rest
    else if b = '(' then scan (some b) (depth + 1) (false :: groupHasQuantifier) rest
    else if b = ')' then
      let hadQuantifier := groupHasQuantifier.headD false
      if hadQuantifier && rest.head?.any isQuantifier then .error nestedQuantifiers
      else scan (some b) (depth - 1) groupHasQuantifier.tail rest
    else if b = '+' || b = '*' || b = '?' then scan (some b) depth (markTop groupHasQuantifier) rest
    else if b = '\x7b' && decide (0 < depth) then scan (some b) depth (markTop groupHasQuantifier) rest
    else scan (some b) depth groupHasQuantifier rest

def validateRegexPattern (pattern : String) : Except FraiseQLError Unit :=
  if maxRegexPatternLen < pattern.utf8ByteSize then .error tooLong else scan none 0 [] pattern.toList

/-! ### The brackets the scan sees -/

/-- What a byte is to the scan. -/
def scanSymbol (depth : Int) (b : Char) : Symbol :=
  if b = '(' then .opening
  else if b = ')' then .closing
  else if b = '+' || b = '*' || b = '?' then .mark true
  else if b = '\x7b' then .mark (decide (0 < depth))
  else .plain

def depthAfter (depth : Int) (b : Char) : Int :=
  if b = '(' then depth + 1 else if b = ')' then depth - 1 else depth

/-- The pattern as the scan sees it: nothing behind a backslash. -/
def scanned (previous : Option Char) (depth : Int) : List Char → List Symbol
  | [] => []
  | b :: rest =>
    if previous = some '\\' then .plain :: scanned (some b) depth rest
    else scanSymbol depth b :: scanned (some b) (depthAfter depth b) rest

theorem startsWithMark_scanned {previous : Option Char} (hprevious : previous ≠ some '\\') (depth : Int)
    (cs : List Char) : startsWithMark (scanned previous depth cs) = cs.head?.any isQuantifier := by
  cases cs with
  | nil => rfl
  | cons b rest =>
    rw [scanned, if_neg hprevious, head?_cons, Option.any_some, isQuantifier, scanSymbol]
    by_cases hopening : b = '('
    · subst hopening
      rfl
    by_cases hclosing : b = ')'
    · subst hclosing
      rfl
    rw [if_neg hopening, if_neg hclosing]
    by_cases hmark : b = '+' || b = '*' || b = '?'
    · rw [if_pos hmark, hmark]
      rfl
    · rw [if_neg hmark]
      by_cases hbrace : b = '\x7b'
      · subst hbrace
        rfl
      · rw [if_neg hbrace]
        simp [hbrace, hmark, startsWithMark]

/-- The loop is the pass over the brackets it sees. -/
theorem scan_eq (previous : Option Char) (depth : Int) (stack : List Bool) (cs : List Char) :
    scan previous depth stack cs =
      if run stack (scanned previous depth cs) then .ok () else .error nestedQuantifiers := by
  induction cs generalizing previous depth stack with
  | nil => rfl
  | cons b rest ih =>
    rw [scan, scanned]
    by_cases hprevious : previous = some '\\'
    · rw [if_pos hprevious, if_pos hprevious, ih, run]
    rw [if_neg hprevious, if_neg hprevious, scanSymbol, depthAfter]
    by_cases hopening : b = '('
    · rw [if_pos hopening, if_pos hopening, if_pos hopening, ih, run]
    rw [if_neg hopening, if_neg hopening, if_neg hopening]
    by_cases hclosing : b = ')'
    · rw [if_pos hclosing, if_pos hclosing, if_pos hclosing, run,
        startsWithMark_scanned (by rw [hclosing]; decide)]
      by_cases hstop : stack.headD false && rest.head?.any isQuantifier
      · rw [if_pos hstop, if_pos hstop]
        rfl
      · rw [if_neg hstop, if_neg hstop, ih]
    rw [if_neg hclosing, if_neg hclosing, if_neg hclosing]
    by_cases hmark : b = '+' || b = '*' || b = '?'
    · rw [if_pos hmark, if_pos hmark, ih, run, if_pos rfl]
    rw [if_neg hmark, if_neg hmark]
    by_cases hbrace : b = '\x7b'
    · rw [if_pos hbrace, run]
      by_cases hdepth : 0 < depth
      · simp [hbrace, hdepth, ih]
      · simp [hbrace, hdepth, ih]
    · rw [if_neg hbrace, run]
      simp [hbrace, ih]

theorem validateRegexPattern_ok_iff (pattern : String) :
    validateRegexPattern pattern = .ok () ↔
      pattern.utf8ByteSize ≤ maxRegexPatternLen ∧ ¬ Caught (scanned none 0 pattern.toList) := by
  rw [validateRegexPattern, scan_eq, ← run_eq_false_iff]
  split_ifs with hlong hrun
  · simp [Nat.not_le.mpr hlong]
  · simp [hrun, Nat.not_lt.mp hlong]
  · simp [hrun]

/-! ### The pattern as an advanced regular expression -/

/-- Where a character of a pattern stands: outside of bracket expressions, behind a backslash, behind `\c`, at the
start of a bracket expression, in one, in a class `[:…:]` or the like of one. -/
inductive Place where
  | outside | escape | control
  | setStart | setFirst | set | setEscape | setControl
  | itemStart | item (kind : Char) | itemEnd
  deriving DecidableEq

/-- Behind a `{`: a bound without an upper end. -/
def openBound (rest : List Char) : Bool :=
  rest.head?.any Char.isDigit && List.isPrefixOf [',', '}'] (rest.dropWhile Char.isDigit)

/-- The place behind a character of a bracket expression. -/
def setNext (c : Char) (rest : List Char) : Place :=
  if c = ']' then .outside
  else if c = '\\' then .setEscape
  else if c = '[' && rest.head?.any (fun k => k = '.' || k = '=' || k = ':') then .itemStart
  else .set

/-- A `]` is a character of the bracket expression it is the first one of. -/
def setFirstNext (c : Char) (rest : List Char) : Place := if c = ']' then .set else setNext c rest

/-- The place behind a character. -/
def nextPlace : Place → Char → List Char → Place
  | .outside, c, _ => if c = '\\' then .escape else if c = '[' then .setStart else .outside
  | .escape, c, _ => if c = 'c' then .control else .outside
  | .control, _, _ => .outside
  | .setStart, c, rest => if c = '^' then .setFirst else setFirstNext c rest
  | .setFirst, c, rest => setFirstNext c rest
  | .set, c, rest => setNext c rest
  | .setEscape, c, _ => if c = 'c' then .setControl else .set
  | .setControl, _, _ => .set
  | .itemStart, c, _ => .item c
  | .item kind, c, rest => if c = kind && rest.head? = some ']' then .itemEnd else .item kind
  | .itemEnd, _, _ => .set

/-- What a character outside of escapes and bracket expressions is; the marks that count are the unbounded
quantifiers. -/
def regexSymbol (c : Char) (rest : List Char) : Symbol :=
  if c = '(' then .opening
  else if c = ')' then .closing
  else if c = '*' || c = '+' then .mark true
  else if c = '{' && openBound rest then .mark true
  else .plain

/-- The groups and the unbounded quantifiers of a pattern. -/
def reading (place : Place) : List Char → List Symbol
  | [] => []
  | c :: rest => (if place = .outside then regexSymbol c rest else .plain) :: reading (nextPlace place c rest) rest

def endPlace (place : Place) : List Char → Place
  | [] => place
  | c :: rest => endPlace (nextPlace place c rest) rest

/-- No escape or bracket expression is left open, and each parenthesis has its partner. -/
def Parses (pattern : List Char) : Prop :=
  endPlace .outside pattern = .outside ∧ Balanced (reading .outside pattern)

/-- A group of `n` characters behind index `i` that holds an unbounded quantifier is followed by one. -/
def NestedAt (w : List Symbol) (i n : Nat) : Prop :=
  ∃ pre body post, pre.length = i ∧ body.length = n ∧
    w = pre ++ .opening :: (body ++ .closing :: .mark true :: post) ∧ Balanced body ∧ .mark true ∈ body

/-- What the check is for: what it accepts has no unbounded quantifier around another. -/
def GuardHolds (pattern : String) : Prop :=
  validateRegexPattern pattern = .ok () → Parses pattern.toList →
    ∀ i n, ¬ NestedAt (reading .outside pattern.toList) i n

/-- The parentheses at index `i` and behind `n` more characters are a pair with a mark directly inside. -/
def MarkedAt (w : List Symbol) (i n : Nat) : Prop :=
  ∃ pre body post, pre.length = i ∧ body.length = n ∧
    w = pre ++ .opening :: (body ++ .closing :: post) ∧ Direct body

theorem reading_mark {place : Place} {cs : List Char} {pre post : List Symbol}
    (h : reading place cs = pre ++ .mark true :: post) :
    ∃ before q rest, cs = before ++ q :: rest ∧ before.length = pre.length ∧ isQuantifier q = true := by
  induction pre generalizing place cs with
  | nil =>
    cases cs with
    | nil => cases h
    | cons q rest =>
      refine ⟨[], q, rest, rfl, rfl, ?_⟩
      obtain ⟨hsymbol, -⟩ := cons.inj h
      split_ifs at hsymbol
      unfold regexSymbol at hsymbol
      split_ifs at hsymbol with hopening hclosing hstar hbrace
      · rcases Bool.or_eq_true_iff.mp hstar with hq | hq
        · simp [isQuantifier, of_decide_eq_true hq]
        · simp [isQuantifier, of_decide_eq_true hq]
      · simp [isQuantifier, of_decide_eq_true (Bool.and_eq_true_iff.mp hbrace).1]
  | cons s pre ih =>
    cases cs with
    | nil => cases h
    | cons c rest =>
      obtain ⟨-, hrest⟩ := cons.inj h
      obtain ⟨before, q, rest', rfl, hlength, hq⟩ := ih hrest
      exact ⟨c :: before, q, rest', rfl, congrArg (· + 1) hlength, hq⟩

theorem scanned_closing {previous : Option Char} {depth : Int} {cs : List Char} {pre post : List Symbol}
    (h : scanned previous depth cs = pre ++ .closing :: post) :
    ∃ before rest depth', cs = before ++ ')' :: rest ∧ before.length = pre.length ∧
      post = scanned (some ')') depth' rest := by
  induction pre generalizing previous depth cs with
  | nil =>
    cases cs with
    | nil => cases h
    | cons b rest =>
      rw [scanned] at h
      split_ifs at h
      · cases h
      · obtain ⟨hsymbol, hrest⟩ := cons.inj h
        unfold scanSymbol at hsymbol
        split_ifs at hsymbol with hopening hclosing
        subst hclosing
        exact ⟨[], rest, _, rfl, rfl, hrest.symm⟩
  | cons s pre ih =>
    cases cs with
    | nil => cases h
    | cons b rest =>
      have hrest : ∃ depth', scanned (some b) depth' rest = pre ++ .closing :: post := by
        rw [scanned] at h
        split_ifs at h
        · exact ⟨_, (cons.inj h).2⟩
        · exact ⟨_, (cons.inj h).2⟩
      obtain ⟨depth', hrest⟩ := hrest
      obtain ⟨before, rest', depth'', rfl, hlength, hpost⟩ := ih hrest
      exact ⟨b :: before, rest', depth'', rfl, congrArg (· + 1) hlength, hpost⟩

/-- A group that holds an unbounded quantifier and is followed by one is stopped at where the scan pairs its
parentheses and sees a quantifier directly inside. -/
theorem caught_of_marked {cs : List Char} {i n : Nat} (hnested : NestedAt (reading .outside cs) i n)
    (hmarked : MarkedAt (scanned none 0 cs) i n) : Caught (scanned none 0 cs) := by
  obtain ⟨pre, body, post, hi, hn, hread, -, -⟩ := hnested
  obtain ⟨pre', body', post', hi', hn', hscan, hdirect⟩ := hmarked
  have hread' : reading .outside cs = (pre ++ .opening :: (body ++ [.closing])) ++ .mark true :: post := by
    rw [hread]
    simp
  have hscan' : scanned none 0 cs = (pre' ++ .opening :: body') ++ .closing :: post' := by
    rw [hscan]
    simp
  obtain ⟨before, q, rest, hcs, hlength, hq⟩ := reading_mark hread'
  obtain ⟨before', rest', depth, hcs', hlength', hpost⟩ := scanned_closing hscan'
  have hsame : (before' ++ [')']) ++ rest' = before ++ q :: rest := by
    rw [← hcs, hcs', append_assoc, singleton_append]
  have hrest : rest' = q :: rest := by
    refine (append_inj hsame ?_).2
    simp at hlength hlength' ⊢
    omega
  have hmark : startsWithMark post' = true := by
    rw [hpost, startsWithMark_scanned (by decide), hrest]
    exact hq
  cases post' with
  | nil => cases hmark
  | cons s post' =>
    cases s with
    | mark counts => exact ⟨pre', body', counts, post', hscan, hdirect⟩
    | opening | closing | plain => cases hmark

/-! ### Patterns without escapes and bracket expressions -/

/-! ### Any pattern -/

/-- The check does what it is for if and only if the pattern is too long, or the scan stops at a pair of parentheses,
or each group that holds an unbounded quantifier and is followed by one is a pair to the scan as well, with a
quantifier that it sees directly inside. -/
theorem guardHolds_iff (pattern : String) :
    GuardHolds pattern ↔
      maxRegexPatternLen < pattern.utf8ByteSize ∨ Caught (scanned none 0 pattern.toList) ∨
        (Parses pattern.toList → ∀ i n, NestedAt (reading .outside pattern.toList) i n →
          MarkedAt (scanned none 0 pattern.toList) i n) := by
  rw [GuardHolds, validateRegexPattern_ok_iff]
  constructor
  · intro hguard
    by_cases hlong : maxRegexPatternLen < pattern.utf8ByteSize
    · exact .inl hlong
    · by_cases hcaught : Caught (scanned none 0 pattern.toList)
      · exact .inr (.inl hcaught)
      · refine .inr (.inr fun hparses i n hnested => ?_)
        exact absurd hnested (hguard ⟨Nat.not_lt.mp hlong, hcaught⟩ hparses i n)
  · rintro h ⟨hshort, hcaught⟩ hparses i n hnested
    rcases h with hlong | h | h
    · omega
    · exact hcaught h
    · exact hcaught (caught_of_marked hnested (h hparses i n hnested))

/-- The quantifier of the inner group is missed. -/
theorem inner_group_accepted : ¬ GuardHolds "((a+))+" := by
  have hread : reading .outside "((a+))+".toList =
      [.opening, .opening, .plain, .mark true, .closing, .closing, .mark true] := by decide
  have hinner : Balanced [.opening, .plain, .mark true, .closing] := .group (.plain (.mark .nil)) .nil
  have hparses : Parses "((a+))+".toList := by
    refine ⟨by decide, ?_⟩
    rw [hread]
    exact .group hinner (.mark .nil)
  intro hguard
  refine hguard rfl hparses 0 4 ?_
  rw [hread]
  exact ⟨[], _, [], rfl, rfl, rfl, hinner, by simp⟩

end FraiseQL.RegexGuard
