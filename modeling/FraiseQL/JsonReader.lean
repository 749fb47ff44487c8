import Mathlib.Algebra.Field.Rat
import Mathlib.Data.List.Basic
import Mathlib.Data.List.TakeWhile

/-! The JSON grammar as readers: a text, what is read at its start, and what is left of the text. Strings are read
with their escapes, numbers as the longest run of numeral characters, and white space is passed over between
tokens. -/

namespace FraiseQL.JsonReader

open List Option Nat

/-- A JSON value; an object is the list of its members in the order of the text. -/
inductive Tree where
  | null
  | bool (b : Bool)
  | num (q : ℚ)
  | str (s : String)
  | arr (items : List Tree)
  | obj (members : List (String × Tree))

/-! ### Strings -/

def hexValue (c : Char) : Option Nat :=
  if c.isDigit then some (c.toNat - 48)
  else if 'a' ≤ c ∧ c ≤ 'f' then some (c.toNat - 87)
  else if 'A' ≤ c ∧ c ≤ 'F' then some (c.toNat - 55)
  else none

/-- The code unit of four hexadecimal digits. -/
def codeUnit (a b c d : Char) : Option Nat :=
  (hexValue a).bind fun a => (hexValue b).bind fun b => (hexValue c).bind fun c => (hexValue d).map fun d =>
    ((a * 16 + b) * 16 + c) * 16 + d

def isHighSurrogate (n : Nat) : Bool := 0xD800 ≤ n && n < 0xDC00

def isLowSurrogate (n : Nat) : Bool := 0xDC00 ≤ n && n < 0xE000

/-- The character of a surrogate pair. -/
def pairChar (high low : Nat) : Char := Char.ofNat (0x10000 + (high - 0xD800) * 0x400 + (low - 0xDC00))

/-- The character of a letter after a backslash. -/
def escapeLetter (c : Char) : Option Char :=
  if c = '"' ∨ c = '\\' ∨ c = '/' then some c
  else if c = 'b' then some '\x08'
  else if c = 'f' then some '\x0c'
  else if c = 'n' then some '\n'
  else if c = 'r' then some '\r'
  else if c = 't' then some '\t'
  else none

/-- The characters of a string, read after its opening quote. -/
inductive ReadsString : List Char → List Char → List Char → Prop
  | close {rest : List Char} : ReadsString ('"' :: rest) [] rest
  | plain {c : Char} {cs s rest : List Char} (hquote : c ≠ '"') (hbackslash : c ≠ '\\') (hcontrol : 32 ≤ c.toNat)
      (h : ReadsString cs s rest) : ReadsString (c :: cs) (c :: s) rest
  | letter {e c : Char} {cs s rest : List Char} (hletter : escapeLetter e = some c) (h : ReadsString cs s rest) :
      ReadsString ('\\' :: e :: cs) (c :: s) rest
  | unit {a b c d : Char} {n : Nat} {cs s rest : List Char} (hunit : codeUnit a b c d = some n)
      (hhigh : isHighSurrogate n = false) (hlow : isLowSurrogate n = false) (h : ReadsString cs s rest) :
      ReadsString ('\\' :: 'u' :: a :: b :: c :: d :: cs) (Char.ofNat n :: s) rest
  | pair {a b c d a' b' c' d' : Char} {high low : Nat} {cs s rest : List Char} (hunit : codeUnit a b c d = some high)
      (hhigh : isHighSurrogate high = true) (hunit' : codeUnit a' b' c' d' = some low)
      (hlow : isLowSurrogate low = true) (h : ReadsString cs s rest) :
      ReadsString ('\\' :: 'u' :: a :: b :: c :: d :: '\\' :: 'u' :: a' :: b' :: c' :: d' :: cs)
        (pairChar high low :: s) rest

/-! ### Numbers -/

def isNumeralChar (c : Char) : Bool := c.isDigit || c = '-' || c = '+' || c = '.' || c = 'e' || c = 'E'

def digitsValue (cs : List Char) : Nat := Nat.ofDigitChars 10 cs 0

/-- The digits of a fraction, and what is left. -/
def fraction : List Char → Option (List Char × List Char)
  | '.' :: cs =>
    if (cs.takeWhile Char.isDigit).isEmpty then none
    else some (cs.takeWhile Char.isDigit, cs.dropWhile Char.isDigit)
  | cs => some ([], cs)

/-- Digits and nothing else. -/
def exponentDigits (cs : List Char) : Option Nat :=
  if cs.isEmpty || !cs.all Char.isDigit then none else some (digitsValue cs)

/-- Digits with or without a sign. -/
def signedDigits : List Char → Option Int
  | '+' :: cs => (exponentDigits cs).map Int.ofNat
  | '-' :: cs => (exponentDigits cs).map fun (n : Nat) => -(n : Int)
  | cs => (exponentDigits cs).map Int.ofNat

/-- The exponent at the end of a numeral. -/
def exponent : List Char → Option Int
  | [] => some 0
  | c :: cs => if c = 'e' ∨ c = 'E' then signedDigits cs else none

/-- A numeral without its sign. -/
def magnitude (body : List Char) : Option ℚ :=
  let whole := body.takeWhile Char.isDigit
  if whole.isEmpty || (whole.head? = some '0' && whole.length ≠ 1) then none
  else (fraction (body.dropWhile Char.isDigit)).bind fun part => (exponent part.2).map fun (e : Int) =>
    (digitsValue (whole ++ part.1) : ℚ) * 10 ^ (e - part.1.length)

/-- The number of a numeral. -/
def numeral : List Char → Option ℚ
  | '-' :: body => (magnitude body).map fun q => -q
  | body => magnitude body

/-! ### Values -/

def isSpace (c : Char) : Bool := c = ' ' || c = '\t' || c = '\n' || c = '\r'

def skipSpaces (cs : List Char) : List Char := cs.dropWhile isSpace

mutual

/-- A value at the start of a text. -/
inductive ReadsValue : List Char → Tree → List Char → Prop
  | null {rest : List Char} : ReadsValue ('n' :: 'u' :: 'l' :: 'l' :: rest) .null rest
  | true {rest : List Char} : ReadsValue ('t' :: 'r' :: 'u' :: 'e' :: rest) (.bool .true) rest
  | false {rest : List Char} : ReadsValue ('f' :: 'a' :: 'l' :: 's' :: 'e' :: rest) (.bool .false) rest
  | number {cs : List Char} {q : ℚ} (h : numeral (cs.takeWhile isNumeralChar) = some q) :
      ReadsValue cs (.num q) (cs.dropWhile isNumeralChar)
  | string {cs s rest : List Char} (h : ReadsString cs s rest) : ReadsValue ('"' :: cs) (.str (String.ofList s)) rest
  | emptyArray {cs rest : List Char} (h : skipSpaces cs = ']' :: rest) : ReadsValue ('[' :: cs) (.arr []) rest
  | array {cs rest : List Char} {items : List Tree} (h : ReadsItems cs items rest) :
      ReadsValue ('[' :: cs) (.arr items) rest
  | emptyObject {cs rest : List Char} (h : skipSpaces cs = '\x7d' :: rest) : ReadsValue ('\x7b' :: cs) (.obj []) rest
  | object {cs rest : List Char} {members : List (String × Tree)} (h : ReadsMembers cs members rest) :
      ReadsValue ('\x7b' :: cs) (.obj members) rest
  | space {c : Char} {cs rest : List Char} {v : Tree} (hspace : isSpace c = .true) (h : ReadsValue cs v rest) :
      ReadsValue (c :: cs) v rest

/-- The items of an array, to its closing bracket. -/
inductive ReadsItems : List Char → List Tree → List Char → Prop
  | last {cs mid rest : List Char} {v : Tree} (h : ReadsValue cs v mid) (hclose : skipSpaces mid = ']' :: rest) :
      ReadsItems cs [v] rest
  | more {cs mid next rest : List Char} {v : Tree} {vs : List Tree} (h : ReadsValue cs v mid)
      (hcomma : skipSpaces mid = ',' :: next) (hmore : ReadsItems next vs rest) : ReadsItems cs (v :: vs) rest

/-- The members of an object, to its closing brace. -/
inductive ReadsMembers : List Char → List (String × Tree) → List Char → Prop
  | last {cs inner key mid next tail rest : List Char} {v : Tree} (hquote : skipSpaces cs = '"' :: inner)
      (hkey : ReadsString inner key mid) (hcolon : skipSpaces mid = ':' :: next) (h : ReadsValue next v tail)
      (hclose : skipSpaces tail = '\x7d' :: rest) : ReadsMembers cs [(String.ofList key, v)] rest
  | more {cs inner key mid next tail follow rest : List Char} {v : Tree} {members : List (String × Tree)}
      (hquote : skipSpaces cs = '"' :: inner) (hkey : ReadsString inner key mid)
      (hcolon : skipSpaces mid = ':' :: next) (h : ReadsValue next v tail) (hcomma : skipSpaces tail = ',' :: follow)
      (hmore : ReadsMembers follow members rest) : ReadsMembers cs ((String.ofList key, v) :: members) rest

end

def Decodes (text : List Char) (v : Tree) : Prop := ∃ rest, ReadsValue text v rest ∧ skipSpaces rest = []

/-! ### The first character decides -/

variable {c : Char}

theorem skipSpaces_of_not (hc : isSpace c = false) (cs : List Char) : skipSpaces (c :: cs) = c :: cs :=
  dropWhile_cons_of_neg (by simpa using hc)

variable {cs rest : List Char} {v : Tree}

theorem readsValue_number_iff (hc : isNumeralChar c = true) :
    ReadsValue (c :: cs) v rest ↔ ∃ q, v = .num q ∧ numeral ((c :: cs).takeWhile isNumeralChar) = some q ∧
      rest = (c :: cs).dropWhile isNumeralChar := by
  constructor
  · intro h
    generalize htext : c :: cs = text at h ⊢
    cases h with
    | number h => exact ⟨_, rfl, h, rfl⟩
    | space hspace h =>
      obtain ⟨rfl, -⟩ := cons.inj htext
      simp only [isSpace, Bool.or_eq_true, decide_eq_true_eq] at hspace
      rcases hspace with ((rfl | rfl) | rfl) | rfl <;> cases hc
    | _ =>
      obtain ⟨rfl, -⟩ := cons.inj htext
      cases hc
  · rintro ⟨q, rfl, hq, rfl⟩
    exact .number hq

theorem readsValue_string_iff :
    ReadsValue ('"' :: cs) v rest ↔ ∃ s, v = .str (String.ofList s) ∧ ReadsString cs s rest := by
  constructor
  · intro h
    generalize htext : '"' :: cs = text at h
    cases h with
    | string h =>
      obtain ⟨-, rfl⟩ := cons.inj htext
      exact ⟨_, rfl, h⟩
    | number h =>
      rw [← htext] at h
      cases h
    | space hspace h =>
      obtain ⟨rfl, -⟩ := cons.inj htext
      cases hspace
    | _ => exact absurd (cons.inj htext).1 (by decide)
  · rintro ⟨s, rfl, h⟩
    exact .string h

theorem readsValue_array_iff : ReadsValue ('[' :: cs) v rest ↔ (v = .arr [] ∧ skipSpaces cs = ']' :: rest) ∨
      ∃ items, v = .arr items ∧ ReadsItems cs items rest := by
  constructor
  · intro h
    generalize htext : '[' :: cs = text at h
    cases h with
    | emptyArray h =>
      obtain ⟨-, rfl⟩ := cons.inj htext
      exact .inl ⟨rfl, h⟩
    | array h =>
      obtain ⟨-, rfl⟩ := cons.inj htext
      exact .inr ⟨_, rfl, h⟩
    | number h =>
      rw [← htext] at h
      cases h
    | space hspace h =>
      obtain ⟨rfl, -⟩ := cons.inj htext
      cases hspace
    | _ => exact absurd (cons.inj htext).1 (by decide)
  · rintro (⟨rfl, h⟩ | ⟨items, rfl, h⟩)
    · exact .emptyArray h
    · exact .array h

theorem readsValue_object_iff : ReadsValue ('\x7b' :: cs) v rest ↔ (v = .obj [] ∧ skipSpaces cs = '\x7d' :: rest) ∨
      ∃ members, v = .obj members ∧ ReadsMembers cs members rest := by
  constructor
  · intro h
    generalize htext : '\x7b' :: cs = text at h
    cases h with
    | emptyObject h =>
      obtain ⟨-, rfl⟩ := cons.inj htext
      exact .inl ⟨rfl, h⟩
    | object h =>
      obtain ⟨-, rfl⟩ := cons.inj htext
      exact .inr ⟨_, rfl, h⟩
    | number h =>
      rw [← htext] at h
      cases h
    | space hspace h =>
      obtain ⟨rfl, -⟩ := cons.inj htext
      cases hspace
    | _ => exact absurd (cons.inj htext).1 (by decide)
  · rintro (⟨rfl, h⟩ | ⟨members, rfl, h⟩)
    · exact .emptyObject h
    · exact .object h

/-- A word is read to its end. -/
theorem readsValue_word {word : List Char} {w : Tree}
    (hword : (word, w) ∈ [(['n', 'u', 'l', 'l'], Tree.null), (['t', 'r', 'u', 'e'], .bool true),
      (['f', 'a', 'l', 's', 'e'], .bool false)]) :
    ReadsValue (word ++ cs) v rest ↔ v = w ∧ rest = cs := by
  constructor
  · intro h
    generalize htext : word ++ cs = text at h
    simp only [mem_cons, not_mem_nil, or_false, Prod.mk.injEq] at hword
    rcases hword with ⟨rfl, rfl⟩ | ⟨rfl, rfl⟩ | ⟨rfl, rfl⟩ <;>
      cases h with
      | number h =>
        rw [← htext] at h
        cases h
      | space hspace h =>
        obtain ⟨rfl, -⟩ := cons.inj htext
        cases hspace
      | _ => simp_all
  · rintro ⟨rfl, rfl⟩
    simp only [mem_cons, not_mem_nil, or_false, Prod.mk.injEq] at hword
    rcases hword with ⟨rfl, rfl⟩ | ⟨rfl, rfl⟩ | ⟨rfl, rfl⟩
    · exact .null
    · exact .true
    · exact .false

/-! ### Numerals and what follows them -/

theorem isNumeralChar_of_isDigit (h : c.isDigit = true) : isNumeralChar c = true := by
  rw [isNumeralChar, h]
  rfl

theorem exponentDigits_chars {n : Nat} (h : exponentDigits cs = some n) : ∀ c ∈ cs, isNumeralChar c = true := by
  unfold exponentDigits at h
  split_ifs at h with hcond
  simp only [Bool.or_eq_true, Bool.not_eq_true', not_or, Bool.not_eq_false] at hcond
  exact fun c hc => isNumeralChar_of_isDigit (all_eq_true.mp hcond.2 c hc)

theorem signedDigits_chars {e : Int} (h : signedDigits cs = some e) : ∀ c ∈ cs, isNumeralChar c = true := by
  unfold signedDigits at h
  split at h <;> obtain ⟨n, hn, -⟩ := map_eq_some_iff.mp h
  · exact forall_mem_cons.mpr ⟨rfl, exponentDigits_chars hn⟩
  · exact forall_mem_cons.mpr ⟨rfl, exponentDigits_chars hn⟩
  · exact exponentDigits_chars hn

theorem exponent_chars {e : Int} (h : exponent cs = some e) : ∀ c ∈ cs, isNumeralChar c = true := by
  cases cs with
  | nil => exact nofun
  | cons c cs =>
    rw [exponent] at h
    split_ifs at h with hletter
    refine forall_mem_cons.mpr ⟨?_, signedDigits_chars h⟩
    rcases hletter with rfl | rfl <;> rfl

theorem takeWhile_digits : ∀ c ∈ cs.takeWhile Char.isDigit, isNumeralChar c = true :=
  fun _ hc => isNumeralChar_of_isDigit (mem_takeWhile_imp hc)

theorem fraction_chars {part : List Char × List Char} (h : fraction cs = some part)
    (hafter : ∀ c ∈ part.2, isNumeralChar c = true) : ∀ c ∈ cs, isNumeralChar c = true := by
  unfold fraction at h
  split at h
  · rename_i cs
    split_ifs at h
    obtain rfl := some.inj h
    refine forall_mem_cons.mpr ⟨rfl, ?_⟩
    rw [← takeWhile_append_dropWhile (p := Char.isDigit) (l := cs), forall_mem_append]
    exact ⟨takeWhile_digits, hafter⟩
  · obtain rfl := some.inj h
    exact hafter

variable {q : ℚ}

theorem magnitude_chars {body : List Char} (h : magnitude body = some q) :
    body ≠ [] ∧ ∀ c ∈ body, isNumeralChar c = true := by
  unfold magnitude at h
  dsimp only at h
  split_ifs at h with hwhole
  obtain ⟨part, hpart, h⟩ := bind_eq_some_iff.mp h
  obtain ⟨e, he, -⟩ := map_eq_some_iff.mp h
  constructor
  · rintro rfl
    exact hwhole rfl
  · rw [← takeWhile_append_dropWhile (p := Char.isDigit) (l := body), forall_mem_append]
    exact ⟨takeWhile_digits, fraction_chars hpart (exponent_chars he)⟩

theorem numeral_chars {token : List Char} (h : numeral token = some q) :
    token ≠ [] ∧ ∀ c ∈ token, isNumeralChar c = true := by
  unfold numeral at h
  split at h
  · obtain ⟨m, hm, -⟩ := map_eq_some_iff.mp h
    exact ⟨cons_ne_nil _ _, forall_mem_cons.mpr ⟨rfl, (magnitude_chars hm).2⟩⟩
  · exact magnitude_chars h

/-- No numeral goes on in the text. -/
def EndsNumeral (rest : List Char) : Prop := ∀ c ∈ rest.head?, isNumeralChar c = false

theorem readsValue_numeral_iff {token rest' : List Char} (hq : numeral token = some q)
    (hrest : EndsNumeral rest) : ReadsValue (token ++ rest) v rest' ↔ v = .num q ∧ rest' = rest := by
  obtain ⟨hne, hchars⟩ := numeral_chars hq
  have htake : (token ++ rest).takeWhile isNumeralChar = token := by
    rw [takeWhile_append_of_pos hchars]
    cases rest with
    | nil => rw [takeWhile_nil, append_nil]
    | cons c rest => rw [takeWhile_cons_of_neg (by simpa using hrest c rfl), append_nil]
  have hdrop : (token ++ rest).dropWhile isNumeralChar = rest := by
    rw [dropWhile_append_of_pos hchars]
    cases rest with
    | nil => rfl
    | cons c rest => exact dropWhile_cons_of_neg (by simpa using hrest c rfl)
  obtain ⟨c, cs, rfl⟩ := exists_cons_of_ne_nil hne
  rw [cons_append] at htake hdrop ⊢
  rw [readsValue_number_iff (hchars c mem_cons_self), htake, hdrop]
  constructor
  · rintro ⟨q', rfl, hq', rfl⟩
    rw [hq] at hq'
    exact ⟨congrArg Tree.num (some.inj hq').symm, rfl⟩
  · rintro ⟨rfl, rfl⟩
    exact ⟨q, rfl, hq, rfl⟩

/-! ### Integers -/

/-- The decimal digits of a positive number do not start with a zero. -/
theorem toDigits_head {n : Nat} (hn : 0 < n) : (Nat.toDigits 10 n).head? ≠ some '0' := by
  induction n using Nat.strongRecOn with
  | ind n ih =>
    rw [Nat.toDigits_eq_if (by decide)]
    split_ifs with hsmall
    · rw [head?_cons]
      intro h
      have hdigit := congrArg Char.toNat (some.inj h)
      rw [toNat_digitChar_of_lt_ten hsmall] at hdigit
      exact absurd hdigit (by simp; omega)
    · rw [head?_append_of_ne_nil _ toDigits_ne_nil]
      exact ih (n / 10) (by omega) (by omega)

theorem magnitude_toDigits (n : Nat) : magnitude (toDigits 10 n) = some (n : ℚ) := by
  have hdigits : ∀ c ∈ toDigits 10 n, c.isDigit = true :=
    fun c hc => isDigit_of_mem_toDigits (by decide) (by decide) hc
  have htake : (toDigits 10 n).takeWhile Char.isDigit = toDigits 10 n :=
    takeWhile_eq_self_iff.mpr hdigits
  have hdrop : (toDigits 10 n).dropWhile Char.isDigit = [] := dropWhile_eq_nil_iff.mpr hdigits
  have hleading : ((toDigits 10 n).isEmpty ||
      ((toDigits 10 n).head? = some '0' && (toDigits 10 n).length ≠ 1)) = false := by
    cases n with
    | zero => rfl
    | succ n => simp [toDigits_head (succ_pos n), toDigits_ne_nil]
  unfold magnitude
  simp only [htake, hdrop, hleading]
  simp [fraction, exponent, digitsValue, ofDigitChars_ten_toDigits]

theorem numeral_int (n : Int) : numeral (toString n).toList = some (n : ℚ) := by
  cases n with
  | ofNat n =>
    have htext : (toString (Int.ofNat n)).toList = toDigits 10 n := by
      rw [Int.toString_eq_repr]
      exact toList_repr
    have hbody : numeral (toDigits 10 n) = magnitude (toDigits 10 n) := by
      unfold numeral
      split
      · rename_i cs heq
        have hmem : '-' ∈ toDigits 10 n := heq ▸ mem_cons_self
        exact absurd (isDigit_of_mem_toDigits (by decide) (by decide) hmem) (by decide)
      · rfl
    rw [htext, hbody, magnitude_toDigits]
    rfl
  | negSucc n =>
    have htext : (toString (Int.negSucc n)).toList = '-' :: toDigits 10 (n + 1) := by
      rw [Int.toString_eq_repr]
      show ("-" ++ (n + 1).repr).toList = _
      rw [String.toList_append, toList_repr]
      rfl
    rw [htext, numeral, magnitude_toDigits, map_some]
    simp

/-! ### Printed values -/

/-- A printed value reads as that value with all of the print taken, exactly under a condition. -/
def ReadsBack (printed : List Char) (v : Tree) (good : Prop) : Prop :=
  ∀ rest rest', EndsNumeral rest → (ReadsValue (printed ++ rest) v rest' ↔ good ∧ rest' = rest)

def joined : List (List Char) → List Char
  | [] => []
  | part :: parts => part ++ parts.flatMap fun part => ',' :: part

theorem endsNumeral_cons (hc : isNumeralChar c = false) (cs : List Char) : EndsNumeral (c :: cs) := by
  rintro d hd
  obtain rfl := some.inj hd
  exact hc

/-- One item to read: its print, its value and its condition. -/
structure Cell where
  printed : List Char
  tree : Tree
  good : Prop

/-- Items between commas read as their values. -/
theorem readsItems_joined (cell : Cell) (cells : List Cell)
    (h : ∀ x ∈ cell :: cells, ReadsBack x.printed x.tree x.good) (rest rest' : List Char) :
    ReadsItems (joined ((cell :: cells).map Cell.printed) ++ ']' :: rest) ((cell :: cells).map Cell.tree) rest' ↔
      (∀ x ∈ cell :: cells, x.good) ∧ rest' = rest := by
  have hspace : isSpace ']' = false := rfl
  have hcomma : isSpace ',' = false := rfl
  induction cells generalizing cell with
  | nil =>
    have hcell := h cell mem_cons_self
    simp only [joined, map_cons, map_nil, flatMap_nil, append_nil, mem_singleton, forall_eq]
    constructor
    · intro hreads
      cases hreads with
      | last hvalue hclose =>
        obtain ⟨hgood, rfl⟩ := (hcell _ _ (endsNumeral_cons rfl _)).mp hvalue
        rw [skipSpaces_of_not hspace] at hclose
        exact ⟨hgood, (cons.inj hclose).2.symm⟩
      | more _ _ hmore => cases hmore
    · rintro ⟨hgood, rfl⟩
      exact .last ((hcell _ _ (endsNumeral_cons rfl _)).mpr ⟨hgood, rfl⟩) (skipSpaces_of_not hspace _)
  | cons next cells ih =>
    have hcell := h cell mem_cons_self
    have hrest := ih next fun x hx => h x (mem_cons_of_mem _ hx)
    have htext : joined ((cell :: next :: cells).map Cell.printed) ++ ']' :: rest =
        cell.printed ++ (',' :: (joined ((next :: cells).map Cell.printed) ++ ']' :: rest)) := by
      simp [joined]
    rw [htext, map_cons]
    constructor
    · intro hreads
      cases hreads with
      | more hvalue hnext hmore =>
        obtain ⟨hgood, rfl⟩ := (hcell _ _ (endsNumeral_cons rfl _)).mp hvalue
        rw [skipSpaces_of_not hcomma] at hnext
        obtain ⟨-, rfl⟩ := cons.inj hnext
        obtain ⟨hgoods, rfl⟩ := hrest.mp hmore
        exact ⟨forall_mem_cons.mpr ⟨hgood, hgoods⟩, rfl⟩
    · rintro ⟨hgoods, rfl⟩
      obtain ⟨hgood, hgoods⟩ := forall_mem_cons.mp hgoods
      exact .more ((hcell _ _ (endsNumeral_cons rfl _)).mpr ⟨hgood, rfl⟩) (skipSpaces_of_not hcomma _)
        (hrest.mpr ⟨hgoods, rfl⟩)

theorem readsBack_array (cells : List Cell) (h : ∀ x ∈ cells, ReadsBack x.printed x.tree x.good) :
    ReadsBack ('[' :: joined (cells.map Cell.printed) ++ [']']) (.arr (cells.map Cell.tree)) (∀ x ∈ cells, x.good) := by
  intro rest rest' _
  have htext : ('[' :: joined (cells.map Cell.printed) ++ [']']) ++ rest =
      '[' :: (joined (cells.map Cell.printed) ++ ']' :: rest) := by simp
  rw [htext, readsValue_array_iff]
  cases cells with
  | nil =>
    have hclose : skipSpaces (']' :: rest) = ']' :: rest := skipSpaces_of_not rfl _
    simp only [joined, map_nil, nil_append, hclose, cons.injEq, true_and, not_mem_nil, false_implies,
      implies_true]
    constructor
    · rintro (heq | ⟨items, heq, hitems⟩)
      · exact heq.symm
      · obtain rfl := Tree.arr.inj heq
        cases hitems
    · rintro rfl
      exact .inl rfl
  | cons cell cells =>
    rw [← readsItems_joined cell cells h]
    constructor
    · rintro (⟨heq, -⟩ | ⟨items, heq, hitems⟩)
      · cases heq
      · obtain rfl := Tree.arr.inj heq
        exact hitems
    · exact fun hitems => .inr ⟨_, rfl, hitems⟩

/-! ### Printed members -/

/-- A character that stands for itself in a string. -/
def StandsForItself (c : Char) : Prop := c ≠ '"' ∧ c ≠ '\\' ∧ 32 ≤ c.toNat

variable {t : List Char}

theorem readsString_cons_iff (hc : StandsForItself c) :
    ReadsString (c :: cs) t rest ↔ ∃ s, t = c :: s ∧ ReadsString cs s rest := by
  constructor
  · intro h
    generalize htext : c :: cs = text at h
    cases h with
    | plain _ _ _ h =>
      obtain ⟨rfl, rfl⟩ := cons.inj htext
      exact ⟨_, rfl, h⟩
    | close => exact absurd (cons.inj htext).1 hc.1
    | letter _ _ => exact absurd (cons.inj htext).1 hc.2.1
    | unit _ _ _ _ => exact absurd (cons.inj htext).1 hc.2.1
    | pair _ _ _ _ _ => exact absurd (cons.inj htext).1 hc.2.1
  · rintro ⟨s, rfl, h⟩
    exact .plain hc.1 hc.2.1 hc.2.2 h

theorem readsString_close_iff : ReadsString ('"' :: cs) t rest ↔ t = [] ∧ rest = cs := by
  constructor
  · intro h
    generalize htext : '"' :: cs = text at h
    cases h with
    | close => exact ⟨rfl, (cons.inj htext).2.symm⟩
    | plain hquote _ _ _ => exact absurd (cons.inj htext).1.symm hquote
    | _ => exact absurd (cons.inj htext).1 (by decide)
  · rintro ⟨rfl, rfl⟩
    exact .close

/-- An escaped quote reads as a quote. -/
theorem readsString_quote_iff : ReadsString ('\\' :: '"' :: cs) t rest ↔ ∃ s, t = '"' :: s ∧ ReadsString cs s rest := by
  have hescape : escapeLetter '"' = some '"' := rfl
  constructor
  · intro h
    generalize htext : '\\' :: '"' :: cs = text at h
    cases h with
    | letter hletter h =>
      obtain ⟨rfl, rfl⟩ := cons.inj (cons.inj htext).2
      rw [hescape] at hletter
      exact ⟨_, by rw [some.inj hletter], h⟩
    | plain _ hbackslash _ _ => exact absurd (cons.inj htext).1.symm hbackslash
    | _ => simp at htext
  · rintro ⟨s, rfl, h⟩
    exact .letter hescape h

theorem readsString_plain_iff {s rest' : List Char} (hs : ∀ c ∈ s, StandsForItself c) :
    ReadsString (s ++ '"' :: rest) t rest' ↔ t = s ∧ rest' = rest := by
  induction s generalizing t with
  | nil => exact readsString_close_iff
  | cons c s ih =>
    obtain ⟨hc, hs⟩ := forall_mem_cons.mp hs
    rw [cons_append, readsString_cons_iff hc]
    constructor
    · rintro ⟨s', rfl, h⟩
      obtain ⟨rfl, rfl⟩ := (ih hs).mp h
      exact ⟨rfl, rfl⟩
    · rintro ⟨rfl, rfl⟩
      exact ⟨s, rfl, (ih hs).mpr ⟨rfl, rfl⟩⟩

/-- One member to read: its key and its cell. -/
structure Member extends Cell where
  key : List Char

def Member.text (member : Member) : List Char := '"' :: member.key ++ '"' :: ':' :: member.printed

def Member.entry (member : Member) : String × Tree := (String.ofList member.key, member.tree)

/-- The key and the colon of a member leave its value to read. -/
theorem readsKey_iff {member : Member} (hkey : ∀ c ∈ member.key, StandsForItself c) {inner key mid next : List Char} :
    (skipSpaces (member.text ++ cs) = '"' :: inner ∧ ReadsString inner key mid ∧ skipSpaces mid = ':' :: next) ↔
      inner = member.key ++ '"' :: ':' :: (member.printed ++ cs) ∧ key = member.key ∧
        mid = ':' :: (member.printed ++ cs) ∧ next = member.printed ++ cs := by
  have htext : member.text ++ cs = '"' :: (member.key ++ '"' :: (':' :: (member.printed ++ cs))) := by
    simp [Member.text]
  rw [htext, skipSpaces_of_not rfl]
  constructor
  · rintro ⟨hinner, hstring, hcolon⟩
    obtain ⟨-, rfl⟩ := cons.inj hinner
    obtain ⟨rfl, rfl⟩ := (readsString_plain_iff hkey).mp hstring
    rw [skipSpaces_of_not rfl] at hcolon
    exact ⟨rfl, rfl, rfl, (cons.inj hcolon).2.symm⟩
  · rintro ⟨rfl, rfl, rfl, rfl⟩
    exact ⟨rfl, (readsString_plain_iff hkey).mpr ⟨rfl, rfl⟩, skipSpaces_of_not rfl _⟩

/-- Members between commas read as their values. -/
theorem readsMembers_joined (member : Member) (members : List Member)
    (hkeys : ∀ x ∈ member :: members, ∀ c ∈ x.key, StandsForItself c)
    (h : ∀ x ∈ member :: members, ReadsBack x.printed x.tree x.good) (rest rest' : List Char) :
    ReadsMembers (joined ((member :: members).map Member.text) ++ '\x7d' :: rest)
        ((member :: members).map Member.entry) rest' ↔
      (∀ x ∈ member :: members, x.good) ∧ rest' = rest := by
  have hclose : isSpace '\x7d' = false := rfl
  have hcomma : isSpace ',' = false := rfl
  induction members generalizing member with
  | nil =>
    have hvalue := h member mem_cons_self
    have hkey := hkeys member mem_cons_self
    simp only [joined, map_cons, map_nil, flatMap_nil, append_nil, mem_singleton, forall_eq]
    constructor
    · intro hreads
      generalize hentry : Member.entry member = entry at hreads
      cases hreads with
      | last hquote hstring hcolon hread hend =>
        obtain ⟨-, rfl, -, rfl⟩ := (readsKey_iff hkey).mp ⟨hquote, hstring, hcolon⟩
        obtain rfl : member.tree = _ := (Prod.mk.inj hentry).2
        obtain ⟨hgood, rfl⟩ := (hvalue _ _ (endsNumeral_cons rfl _)).mp hread
        rw [skipSpaces_of_not hclose] at hend
        exact ⟨hgood, (cons.inj hend).2.symm⟩
      | more _ _ _ _ _ hmore => cases hmore
    · rintro ⟨hgood, rfl⟩
      obtain ⟨hquote, hstring, hcolon⟩ := (readsKey_iff hkey).mpr ⟨rfl, rfl, rfl, rfl⟩
      exact .last hquote hstring hcolon ((hvalue _ _ (endsNumeral_cons rfl _)).mpr ⟨hgood, rfl⟩)
        (skipSpaces_of_not hclose _)
  | cons other members ih =>
    have hvalue := h member mem_cons_self
    have hkey := hkeys member mem_cons_self
    have hrest := ih other (fun x hx => hkeys x (mem_cons_of_mem _ hx)) fun x hx => h x (mem_cons_of_mem _ hx)
    have htext : joined ((member :: other :: members).map Member.text) ++ '\x7d' :: rest =
        member.text ++ (',' :: (joined ((other :: members).map Member.text) ++ '\x7d' :: rest)) := by
      simp [joined]
    rw [htext]
    constructor
    · intro hreads
      change ReadsMembers _ (Member.entry member :: (other :: members).map Member.entry) rest' at hreads
      generalize hentry : Member.entry member = entry at hreads
      cases hreads with
      | more hquote hstring hcolon hread hnext hmore =>
        obtain ⟨-, rfl, -, rfl⟩ := (readsKey_iff hkey).mp ⟨hquote, hstring, hcolon⟩
        obtain rfl : member.tree = _ := (Prod.mk.inj hentry).2
        obtain ⟨hgood, rfl⟩ := (hvalue _ _ (endsNumeral_cons rfl _)).mp hread
        rw [skipSpaces_of_not hcomma] at hnext
        obtain ⟨-, rfl⟩ := cons.inj hnext
        obtain ⟨hgoods, rfl⟩ := hrest.mp hmore
        exact ⟨forall_mem_cons.mpr ⟨hgood, hgoods⟩, rfl⟩
    · rintro ⟨hgoods, rfl⟩
      obtain ⟨hgood, hgoods⟩ := forall_mem_cons.mp hgoods
      obtain ⟨hquote, hstring, hcolon⟩ := (readsKey_iff hkey).mpr ⟨rfl, rfl, rfl, rfl⟩
      exact .more hquote hstring hcolon ((hvalue _ _ (endsNumeral_cons rfl _)).mpr ⟨hgood, rfl⟩)
        (skipSpaces_of_not hcomma _) (hrest.mpr ⟨hgoods, rfl⟩)

theorem readsBack_object (members : List Member) (hkeys : ∀ x ∈ members, ∀ c ∈ x.key, StandsForItself c)
    (h : ∀ x ∈ members, ReadsBack x.printed x.tree x.good) :
    ReadsBack ('\x7b' :: joined (members.map Member.text) ++ ['\x7d']) (.obj (members.map Member.entry))
      (∀ x ∈ members, x.good) := by
  intro rest rest' _
  have htext : ('\x7b' :: joined (members.map Member.text) ++ ['\x7d']) ++ rest =
      '\x7b' :: (joined (members.map Member.text) ++ '\x7d' :: rest) := by simp
  rw [htext, readsValue_object_iff]
  cases members with
  | nil =>
    have hclose : skipSpaces ('\x7d' :: rest) = '\x7d' :: rest := skipSpaces_of_not rfl _
    simp only [joined, map_nil, nil_append, hclose, cons.injEq, true_and, not_mem_nil, false_implies,
      implies_true]
    constructor
    · rintro (heq | ⟨members, heq, hmembers⟩)
      · exact heq.symm
      · obtain rfl := Tree.obj.inj heq
        cases hmembers
    · rintro rfl
      exact .inl rfl
  | cons member members =>
    rw [← readsMembers_joined member members hkeys h]
    constructor
    · rintro (⟨heq, -⟩ | ⟨members, heq, hmembers⟩)
      · cases heq
      · obtain rfl := Tree.obj.inj heq
        exact hmembers
    · exact fun hmembers => .inr ⟨_, rfl, hmembers⟩

end FraiseQL.JsonReader
