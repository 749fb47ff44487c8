import Mathlib
import FraiseQL.GraphqlQuery
import FraiseQL.JsonReader
import FraiseQL.JsonText

/-! Literal arguments as JSON text. The serializer escapes double quotes and nothing else, and writes a variable as the
string of its name after a dollar sign. So a string comes back from a JSON reader exactly when it has neither a
backslash nor a control character, and is told from a variable when it is not a dollar sign with a name. -/

namespace FraiseQL.Graphql

open JsonReader List

/-! ### Strings with their quotes escaped -/

def escapedQuotes (s : List Char) : List Char := s.flatMap fun c => if c = '"' then ['\\', '"'] else [c]

theorem escapeDoubleQuotes_toList (s : String) : (escapeDoubleQuotes s).toList = escapedQuotes s.toList :=
  String.toList_ofList

theorem escapedQuotes_quote (s : List Char) : escapedQuotes ('"' :: s) = '\\' :: '"' :: escapedQuotes s := rfl

variable {c : Char}

theorem escapedQuotes_cons (hc : c ≠ '"') (s : List Char) : escapedQuotes (c :: s) = c :: escapedQuotes s := by
  rw [escapedQuotes, flatMap_cons, if_neg hc]
  rfl

/-- A character that is written as it stands and read as it stands. -/
def Unescaped (c : Char) : Prop := c ≠ '\\' ∧ 32 ≤ c.toNat

instance : DecidablePred Unescaped := fun _ => inferInstanceAs (Decidable (_ ∧ _))

variable {s rest : List Char}

/-- The characters of a text that are neither a quote nor a backslash are characters of the string. -/
theorem escapedQuotes_start {cs : List Char} (hquote : c ≠ '"') (hbackslash : c ≠ '\\')
    (h : escapedQuotes s ++ '"' :: rest = c :: cs) : ∃ s', s = c :: s' ∧ escapedQuotes s' ++ '"' :: rest = cs := by
  cases s with
  | nil => exact absurd (cons.inj h).1.symm hquote
  | cons d s =>
    by_cases hd : d = '"'
    · subst hd
      exact absurd (cons.inj h).1.symm hbackslash
    · rw [escapedQuotes_cons hd] at h
      obtain ⟨rfl, hcs⟩ := cons.inj h
      exact ⟨s, rfl, hcs⟩

variable {n : Nat}

theorem hexValue_ne (h : hexValue c = some n) : c ≠ '"' ∧ c ≠ '\\' := by
  constructor
  · rintro rfl
    cases h
  · rintro rfl
    cases h

/-- Four hexadecimal digits of a text are characters of the string. -/
theorem escapedQuotes_unit {cs : List Char} {a b d : Char} (hunit : codeUnit a b c d = some n)
    (h : escapedQuotes s ++ '"' :: rest = a :: b :: c :: d :: cs) :
    ∃ s', s = a :: b :: c :: d :: s' ∧ escapedQuotes s' ++ '"' :: rest = cs := by
  unfold codeUnit at hunit
  obtain ⟨_, ha, hunit⟩ := Option.bind_eq_some_iff.mp hunit
  obtain ⟨_, hb, hunit⟩ := Option.bind_eq_some_iff.mp hunit
  obtain ⟨_, hc, hunit⟩ := Option.bind_eq_some_iff.mp hunit
  obtain ⟨_, hd, -⟩ := Option.map_eq_some_iff.mp hunit
  obtain ⟨s₁, rfl, h₁⟩ := escapedQuotes_start (hexValue_ne ha).1 (hexValue_ne ha).2 h
  obtain ⟨s₂, rfl, h₂⟩ := escapedQuotes_start (hexValue_ne hb).1 (hexValue_ne hb).2 h₁
  obtain ⟨s₃, rfl, h₃⟩ := escapedQuotes_start (hexValue_ne hc).1 (hexValue_ne hc).2 h₂
  obtain ⟨s₄, rfl, h₄⟩ := escapedQuotes_start (hexValue_ne hd).1 (hexValue_ne hd).2 h₃
  exact ⟨s₄, rfl, h₄⟩

theorem hexValue_not_quote {a b d : Char} (h : codeUnit a b c d = some n) : '"' ∉ [a, b, c, d] := by
  unfold codeUnit at h
  obtain ⟨_, ha, h⟩ := Option.bind_eq_some_iff.mp h
  obtain ⟨_, hb, h⟩ := Option.bind_eq_some_iff.mp h
  obtain ⟨_, hc, h⟩ := Option.bind_eq_some_iff.mp h
  obtain ⟨_, hd, -⟩ := Option.map_eq_some_iff.mp h
  simp [(hexValue_ne ha).1.symm, (hexValue_ne hb).1.symm, (hexValue_ne hc).1.symm, (hexValue_ne hd).1.symm]

theorem pairChar_ne (high low : Nat) : pairChar high low ≠ '\\' := by
  have hlarge : ∀ {n : Nat}, 0x10000 ≤ n → Char.ofNat n ≠ '\\' := by
    intro n hn h
    by_cases hvalid : n.isValidChar
    · have hcode : (Char.ofNat n).toNat = n := by
        rw [Char.ofNat, dif_pos hvalid]
        rfl
      rw [h] at hcode
      have hsmall : '\\'.toNat < 0x10000 := by decide
      omega
    · rw [Char.ofNat, dif_neg hvalid] at h
      exact absurd h (by decide)
  exact hlarge (by omega)

variable {rest' : List Char}

/-- What is read of a backslash in the string: the end of the text, an escaped quote, or an escape that the string
itself has. -/
theorem readsString_backslash {t : List Char} (h : ReadsString (escapedQuotes ('\\' :: s) ++ '"' :: rest) t rest') :
    (s = [] ∧ ∃ t', t = '"' :: t') ∨ (∃ s', s = '"' :: s' ∧ t = ['\\']) ∨
      ∃ taken s' c t', s = taken ++ s' ∧ taken ≠ [] ∧ '"' ∉ taken ∧ t = c :: t' ∧
        (c = '\\' → taken = ['\\'] ∨ ∃ a b x y, taken = ['u', a, b, x, y]) ∧
        ReadsString (escapedQuotes s' ++ '"' :: rest) t' rest' := by
  rw [escapedQuotes_cons (by decide), cons_append] at h
  generalize htext : '\\' :: (escapedQuotes s ++ '"' :: rest) = text at h
  cases h with
  | close => exact absurd (cons.inj htext).1 (by decide)
  | plain _ hbackslash _ _ => exact absurd (cons.inj htext).1.symm hbackslash
  | @letter e c cs t _ hletter h =>
    have htext := (cons.inj htext).2
    cases s with
    | nil =>
      obtain ⟨rfl, rfl⟩ := cons.inj htext
      obtain rfl := Option.some.inj hletter
      exact .inl ⟨rfl, t, rfl⟩
    | cons d s =>
      by_cases hd : d = '"'
      · subst hd
        rw [escapedQuotes_quote] at htext
        obtain ⟨rfl, rfl⟩ := cons.inj htext
        obtain rfl := Option.some.inj hletter
        obtain ⟨rfl, -⟩ := readsString_close_iff.mp h
        exact .inr (.inl ⟨s, rfl, rfl⟩)
      · rw [escapedQuotes_cons hd] at htext
        obtain ⟨rfl, rfl⟩ := cons.inj htext
        refine .inr (.inr ⟨[d], s, c, t, rfl, cons_ne_nil _ _, ?_, rfl, ?_, h⟩)
        · exact fun hmem => hd (mem_singleton.mp hmem).symm
        · rintro rfl
          refine .inl ?_
          unfold escapeLetter at hletter
          split_ifs at hletter with hself <;> simp_all
  | @unit a b x y n cs t _ hunit _ _ h =>
    obtain ⟨s₁, rfl, hs⟩ := escapedQuotes_start (by decide) (by decide) (cons.inj htext).2
    obtain ⟨s₂, rfl, rfl⟩ := escapedQuotes_unit hunit hs
    refine .inr (.inr ⟨['u', a, b, x, y], s₂, _, t, rfl, cons_ne_nil _ _, ?_, rfl, ?_, h⟩)
    · intro hmem
      rcases mem_cons.mp hmem with hmem | hmem
      · cases hmem
      · exact hexValue_not_quote hunit hmem
    · exact fun _ => .inr ⟨a, b, x, y, rfl⟩
  | @pair a b x y a' b' x' y' high low cs t _ hunit hhigh hunit' hlow h =>
    obtain ⟨s₁, rfl, hs₁⟩ := escapedQuotes_start (by decide) (by decide) (cons.inj htext).2
    obtain ⟨s₂, rfl, hs₂⟩ := escapedQuotes_unit hunit hs₁
    cases s₂ with
    | nil => exact absurd (cons.inj hs₂).1 (by decide)
    | cons d s₂ =>
      by_cases hd : d = '"'
      · subst hd
        rw [escapedQuotes_quote] at hs₂
        exact absurd (cons.inj (cons.inj hs₂).2).1 (by decide)
      · rw [escapedQuotes_cons hd] at hs₂
        obtain ⟨rfl, htail⟩ := cons.inj hs₂
        obtain ⟨s₃, rfl, hs₃⟩ := escapedQuotes_start (by decide) (by decide) htail
        obtain ⟨s₄, rfl, rfl⟩ := escapedQuotes_unit hunit' hs₃
        refine .inr (.inr ⟨'u' :: a :: b :: x :: y :: '\\' :: 'u' :: [a', b', x', y'], s₄, _, t, rfl,
          cons_ne_nil _ _, ?_, rfl, fun hc => absurd hc (pairChar_ne high low), h⟩)
        intro hmem
        have hfirst := hexValue_not_quote hunit
        have hsecond := hexValue_not_quote hunit'
        simp only [mem_cons, not_mem_nil, or_false, not_or] at hfirst hsecond hmem
        simp [hfirst, hsecond] at hmem

/-- No reading of the escaped string is longer than the string, unless by characters in front with a quote. -/
theorem readsString_not_longer {w : List Char} (hne : w ≠ []) (hquote : '"' ∉ w)
    (h : ReadsString (escapedQuotes s ++ '"' :: rest) (w ++ s) rest') : False := by
  induction hlength : s.length using Nat.strongRecOn generalizing s w with
  | ind n ih =>
    obtain ⟨first, w, rfl⟩ := exists_cons_of_ne_nil hne
    obtain ⟨hfirst, hw⟩ := not_or.mp (mem_cons.not.mp hquote)
    rw [cons_append] at h
    cases s with
    | nil =>
      obtain ⟨habs, -⟩ := readsString_close_iff.mp h
      cases habs
    | cons c s =>
      by_cases hbackslash : c = '\\'
      · subst hbackslash
        rcases readsString_backslash h with ⟨-, t, ht⟩ | ⟨s', rfl, ht⟩ | ⟨taken, s', d, t, rfl, hne, htaken, ht, -, hread⟩
        · exact hfirst (cons.inj ht).1.symm
        · have hlen := congrArg length ht
          simp at hlen
        · obtain ⟨-, rfl⟩ := cons.inj ht
          have hsplit : w ++ '\\' :: (taken ++ s') = (w ++ '\\' :: taken) ++ s' := by simp
          rw [hsplit] at hread
          refine ih s'.length ?_ (by simp) ?_ hread rfl
          · simp only [length_cons, length_append] at hlength
            omega
          · simp [hw, htaken]
      · by_cases hc : c = '"'
        · subst hc
          obtain ⟨t, ht, -⟩ := readsString_quote_iff.mp h
          exact hfirst (cons.inj ht).1.symm
        · rw [escapedQuotes_cons hc, cons_append] at h
          generalize htext : c :: (escapedQuotes s ++ '"' :: rest) = text at h
          generalize hvalue : first :: (w ++ c :: s) = value at h
          cases h with
          | plain _ _ _ h =>
            obtain ⟨rfl, rfl⟩ := cons.inj htext
            obtain ⟨-, rfl⟩ := cons.inj hvalue
            have hsplit : w ++ c :: s = (w ++ [c]) ++ s := by simp
            rw [hsplit] at h
            refine ih s.length ?_ (by simp) ?_ h rfl
            · rw [length_cons] at hlength
              omega
            · simp [hw, Ne.symm hc]
          | close => cases hvalue
          | _ => exact absurd (cons.inj htext).1 hbackslash

/-- An escaped string reads as itself exactly when it has neither a backslash nor a control character. -/
theorem readsString_escaped_iff :
    ReadsString (escapedQuotes s ++ '"' :: rest) s rest' ↔ (∀ c ∈ s, Unescaped c) ∧ rest' = rest := by
  induction s with
  | nil =>
    rw [escapedQuotes, flatMap_nil, nil_append, readsString_close_iff]
    simp
  | cons c s ih =>
    rw [forall_mem_cons, and_assoc, ← ih]
    by_cases hbackslash : c = '\\'
    · subst hbackslash
      refine iff_of_false ?_ fun h => h.1.1 rfl
      intro h
      rcases readsString_backslash h with ⟨-, t, ht⟩ | ⟨s', rfl, ht⟩ | ⟨taken, s', d, t, rfl, hne, htaken, ht, hself, hread⟩
      · exact absurd (cons.inj ht).1 (by decide)
      · cases ht
      · obtain ⟨hd, rfl⟩ := cons.inj ht
        exact readsString_not_longer hne htaken hread
    · by_cases hc : c = '"'
      · subst hc
        rw [escapedQuotes_quote, cons_append, cons_append, readsString_quote_iff]
        constructor
        · rintro ⟨t, ht, h⟩
          obtain ⟨-, rfl⟩ := cons.inj ht
          exact ⟨by decide, h⟩
        · exact fun h => ⟨s, rfl, h.2⟩
      · rw [escapedQuotes_cons hc, cons_append]
        constructor
        · intro h
          generalize htext : c :: (escapedQuotes s ++ '"' :: rest) = text at h
          generalize hvalue : c :: s = value at h
          cases h with
          | plain _ _ hcontrol h =>
            obtain ⟨rfl, rfl⟩ := cons.inj htext
            obtain ⟨-, rfl⟩ := cons.inj hvalue
            exact ⟨⟨hbackslash, hcontrol⟩, h⟩
          | close => cases hvalue
          | _ => exact absurd (cons.inj htext).1 hbackslash
        · exact fun h => .plain hc hbackslash h.1.2 h.2

/-! ### Values -/

mutual

/-- The values inside lists and objects that are neither. -/
def leaves : Value → List Value
  | .list items => leavesOfItems items
  | .object entries => leavesOfEntries entries
  | value => [value]

def leavesOfItems : List Value → List Value
  | [] => []
  | item :: items => leaves item ++ leavesOfItems items

def leavesOfEntries : List (Name × Value) → List Value
  | [] => []
  | entry :: entries => leaves entry.2 ++ leavesOfEntries entries

end

mutual

/-- How deep a value is nested. -/
def height : Value → Nat
  | .list items => heightOfItems items
  | .object entries => heightOfEntries entries
  | _ => 0

def heightOfItems : List Value → Nat
  | [] => 0
  | item :: items => max (height item + 1) (heightOfItems items)

def heightOfEntries : List (Name × Value) → Nat
  | [] => 0
  | entry :: entries => max (height entry.2 + 1) (heightOfEntries entries)

end

mutual

/-- The JSON value that a value denotes; a variable denotes none and stands as null. -/
def denoted : Value → Tree
  | .variable _ => .null
  | .int n => .num n.toInt
  | .float f => .num ((numeral f.json.text.toList).getD 0)
  | .string s => .str s
  | .boolean b => .bool b
  | .null => .null
  | .enum name => .str name.text
  | .list items => .arr (denotedItems items)
  | .object entries => .obj (denotedEntries entries)

def denotedItems : List Value → List Tree
  | [] => []
  | item :: items => denoted item :: denotedItems items

def denotedEntries : List (Name × Value) → List (String × Tree)
  | [] => []
  | entry :: entries => (entry.1.text, denoted entry.2) :: denotedEntries entries

end

/-- A finite float: what `Display` prints is a numeral of the number that its JSON text has. -/
def Double.Finite (f : Double) : Prop :=
  ∃ q, numeral f.display.toList = some q ∧ numeral f.json.text.toList = some q

/-- A value of literals: no variables, and finite floats. -/
structure IsLiteral (value : Value) : Prop where
  noVariable : ∀ name, .variable name ∉ leaves value
  finite : ∀ f, .float f ∈ leaves value → f.Finite

/-- No string literal has a character that would need another escape. -/
def StringsUnescaped (value : Value) : Prop := ∀ s, .string s ∈ leaves value → ∀ c ∈ s.toList, Unescaped c

/-! ### The text of a value -/

mutual

/-- The text of a value, without the limit on depth. -/
def printed : Value → List Char
  | .string s => '"' :: escapedQuotes s.toList ++ ['"']
  | .int n => (toString n.toInt).toList
  | .float f => f.display.toList
  | .boolean b => if b then ['t', 'r', 'u', 'e'] else ['f', 'a', 'l', 's', 'e']
  | .null => ['n', 'u', 'l', 'l']
  | .enum name => '"' :: name.text.toList ++ ['"']
  | .list items => '[' :: joined (printedItems items) ++ [']']
  | .object entries => '\x7b' :: joined (printedEntries entries) ++ ['\x7d']
  | .variable name => '"' :: '$' :: name.text.toList ++ ['"']

def printedItems : List Value → List (List Char)
  | [] => []
  | item :: items => printed item :: printedItems items

def printedEntries : List (Name × Value) → List (List Char)
  | [] => []
  | entry :: entries => ('"' :: entry.1.text.toList ++ '"' :: ':' :: printed entry.2) :: printedEntries entries

end

theorem intercalate_toList (parts : List String) :
    (String.intercalate "," parts).toList = joined (parts.map String.toList) := by
  cases parts with
  | nil => rfl
  | cons part parts => rw [Json.joined_toList, map_cons, joined, flatMap_map]

mutual

theorem serializeValueInner_text : ∀ (value : Value) (depth : Nat), depth + height value ≤ maxSerializeDepth →
    ∃ s, serializeValueInner depth value = some s ∧ s.toList = printed value := by
  intro value depth hdepth
  have hshallow : ¬maxSerializeDepth < depth := by omega
  rw [serializeValueInner.eq_def, if_neg hshallow]
  cases value with
  | string s => exact ⟨_, rfl, by simp [escapeDoubleQuotes_toList, printed]⟩
  | int n => exact ⟨_, rfl, rfl⟩
  | float f => exact ⟨_, rfl, rfl⟩
  | boolean b => cases b <;> exact ⟨_, rfl, rfl⟩
  | null => exact ⟨_, rfl, rfl⟩
  | enum name => exact ⟨_, rfl, by simp [printed]⟩
  | «variable» name => exact ⟨_, rfl, by simp [printed]⟩
  | list items =>
    obtain ⟨parts, hparts, htexts⟩ := serializeItems_texts items (depth + 1) (by rw [height] at hdepth; omega)
    refine ⟨_, by simp only [hparts]; rfl, ?_⟩
    rw [String.toList_append, String.toList_append, intercalate_toList, htexts, printed]
    rfl
  | object entries =>
    obtain ⟨parts, hparts, htexts⟩ := serializeEntries_texts entries (depth + 1) (by rw [height] at hdepth; omega)
    refine ⟨_, by simp only [hparts]; rfl, ?_⟩
    rw [String.toList_append, String.toList_append, intercalate_toList, htexts, printed]
    rfl

theorem serializeItems_texts : ∀ (items : List Value) (depth : Nat), depth + heightOfItems items ≤ maxSerializeDepth + 1 →
    ∃ parts, serializeItems depth items = some parts ∧ parts.map String.toList = printedItems items := by
  intro items depth hdepth
  cases items with
  | nil => exact ⟨[], rfl, rfl⟩
  | cons item items =>
    rw [heightOfItems] at hdepth
    obtain ⟨part, hpart, htext⟩ := serializeValueInner_text item depth (by omega)
    obtain ⟨parts, hparts, htexts⟩ := serializeItems_texts items depth (by omega)
    refine ⟨part :: parts, ?_, ?_⟩
    · rw [serializeItems, hpart, Option.bind_some, hparts]
      rfl
    · rw [map_cons, htext, htexts, printedItems]

theorem serializeEntries_texts : ∀ (entries : List (Name × Value)) (depth : Nat),
    depth + heightOfEntries entries ≤ maxSerializeDepth + 1 →
      ∃ parts, serializeEntries depth entries = some parts ∧ parts.map String.toList = printedEntries entries := by
  intro entries depth hdepth
  match entries with
  | [] => exact ⟨[], rfl, rfl⟩
  | (key, value) :: entries =>
    rw [heightOfEntries] at hdepth
    obtain ⟨part, hpart, htext⟩ := serializeValueInner_text value depth (by simp only at hdepth; omega)
    obtain ⟨parts, hparts, htexts⟩ := serializeEntries_texts entries depth (by omega)
    refine ⟨("\"" ++ key.text ++ "\":" ++ part) :: parts, ?_, ?_⟩
    · rw [serializeEntries, hpart, Option.bind_some, hparts]
      rfl
    · rw [map_cons, htexts, printedEntries]
      simp [htext]

end

variable {value : Value}

/-- The text of a value within the limit. -/
theorem serializeValue_toList (h : height value ≤ maxSerializeDepth) :
    (serializeValue value).toList = printed value := by
  obtain ⟨s, hs, htext⟩ := serializeValueInner_text value 0 (by omega)
  rw [serializeValue, hs, Option.getD_some, htext]

/-! ### Reading the text back -/

theorem standsForItself_of_nameChar (h : isNameChar c = true) : StandsForItself c := by
  have hne : ∀ {d : Char}, isNameChar d = false → c ≠ d := by
    rintro d hd rfl
    rw [h] at hd
    cases hd
  refine ⟨hne (by decide), hne (by decide), ?_⟩
  rw [isNameChar, Bool.or_eq_true, beq_iff_eq] at h
  rcases h with h | rfl
  · simp only [Char.isAlphanum, Char.isAlpha, Char.isUpper, Char.isLower, Char.isDigit, Bool.or_eq_true,
      Bool.and_eq_true, decide_eq_true_eq, ge_iff_le, UInt32.le_iff_toNat_le] at h
    have hcode : c.toNat = c.val.toNat := rfl
    simp at h
    omega
  · decide

theorem name_standsForItself (name : Name) : ∀ c ∈ name.text.toList, StandsForItself c :=
  fun c hc => standsForItself_of_nameChar (all_eq_true.mp name.valid c hc)

theorem readsBack_string (s : List Char) :
    ReadsBack ('"' :: escapedQuotes s ++ ['"']) (.str (String.ofList s)) (∀ c ∈ s, Unescaped c) := by
  intro rest rest' _
  have htext : ('"' :: escapedQuotes s ++ ['"']) ++ rest = '"' :: (escapedQuotes s ++ '"' :: rest) := by simp
  rw [htext, readsValue_string_iff, ← readsString_escaped_iff]
  constructor
  · rintro ⟨t, ht, h⟩
    obtain rfl := String.ofList_inj.mp (Tree.str.inj ht)
    exact h
  · exact fun h => ⟨s, rfl, h⟩

theorem readsBack_name (name : List Char) (h : ∀ c ∈ name, StandsForItself c) :
    ReadsBack ('"' :: name ++ ['"']) (.str (String.ofList name)) True := by
  intro rest rest' _
  have htext : ('"' :: name ++ ['"']) ++ rest = '"' :: (name ++ '"' :: rest) := by simp
  rw [htext, readsValue_string_iff, true_and]
  constructor
  · rintro ⟨t, -, hread⟩
    exact ((readsString_plain_iff h).mp hread).2
  · rintro rfl
    exact ⟨name, rfl, (readsString_plain_iff h).mpr ⟨rfl, rfl⟩⟩

theorem readsBack_word {word : List Char} {w : Tree}
    (hword : (word, w) ∈ [(['n', 'u', 'l', 'l'], Tree.null), (['t', 'r', 'u', 'e'], .bool true),
      (['f', 'a', 'l', 's', 'e'], .bool false)]) : ReadsBack word w True := by
  intro rest rest' _
  rw [readsValue_word hword]
  simp

theorem readsBack_numeral {token : List Char} {q : ℚ} (h : numeral token = some q) :
    ReadsBack token (.num q) True := by
  intro rest rest' hrest
  rw [readsValue_numeral_iff h hrest]
  simp

theorem readsBack_congr {text : List Char} {tree : Tree} {good good' : Prop} (h : ReadsBack text tree good)
    (hgood : good ↔ good') : ReadsBack text tree good' := by
  intro rest rest' hrest
  rw [h rest rest' hrest, hgood]

/-! ### Lists of values by their members -/

variable (items : List Value)

theorem leavesOfItems_eq : leavesOfItems items = items.flatMap leaves := by
  induction items with
  | nil => rfl
  | cons item items ih => rw [leavesOfItems, ih, flatMap_cons]

variable (entries : List (Name × Value))

theorem leavesOfEntries_eq : leavesOfEntries entries = entries.flatMap fun entry => leaves entry.2 := by
  induction entries with
  | nil => rfl
  | cons entry entries ih => rw [leavesOfEntries, ih, flatMap_cons]

/-- An item as it is read. -/
def itemCell (item : Value) : Cell := ⟨printed item, denoted item, StringsUnescaped item⟩

/-- An entry as it is read. -/
def entryMember (entry : Name × Value) : Member := ⟨itemCell entry.2, entry.1.text.toList⟩

theorem printedItems_eq : printedItems items = (items.map itemCell).map Cell.printed := by
  induction items with
  | nil => rfl
  | cons item items ih =>
    rw [printedItems, ih]
    rfl

theorem denotedItems_eq : denotedItems items = (items.map itemCell).map Cell.tree := by
  induction items with
  | nil => rfl
  | cons item items ih =>
    rw [denotedItems, ih]
    rfl

theorem printedEntries_eq : printedEntries entries = (entries.map entryMember).map Member.text := by
  induction entries with
  | nil => rfl
  | cons entry entries ih =>
    rw [printedEntries, ih]
    rfl

theorem denotedEntries_eq : denotedEntries entries = (entries.map entryMember).map Member.entry := by
  induction entries with
  | nil => rfl
  | cons entry entries ih =>
    rw [denotedEntries, ih, map_cons, map_cons, Member.entry, entryMember, String.ofList_toList]
    rfl

theorem stringsUnescaped_items : (∀ item ∈ items, StringsUnescaped item) ↔ StringsUnescaped (.list items) := by
  simp only [StringsUnescaped, leaves, leavesOfItems_eq, mem_flatMap]
  exact ⟨fun h s ⟨item, hitem, hs⟩ => h item hitem s hs, fun h item hitem s hs => h s ⟨item, hitem, hs⟩⟩

theorem stringsUnescaped_entries :
    (∀ entry ∈ entries, StringsUnescaped entry.2) ↔ StringsUnescaped (.object entries) := by
  simp only [StringsUnescaped, leaves, leavesOfEntries_eq, mem_flatMap]
  exact ⟨fun h s ⟨entry, hentry, hs⟩ => h entry hentry s hs, fun h entry hentry s hs => h s ⟨entry, hentry, hs⟩⟩

theorem IsLiteral.item {items : List Value} (h : IsLiteral (.list items)) {item : Value} (hitem : item ∈ items) :
    IsLiteral item := by
  have hsub : leaves item ⊆ leaves (.list items) := by
    rw [leaves, leavesOfItems_eq]
    exact fun leaf hleaf => mem_flatMap.mpr ⟨item, hitem, hleaf⟩
  exact ⟨fun name hname => h.noVariable name (hsub hname), fun f hf => h.finite f (hsub hf)⟩

theorem IsLiteral.entry {entries : List (Name × Value)} (h : IsLiteral (.object entries)) {entry : Name × Value}
    (hentry : entry ∈ entries) : IsLiteral entry.2 := by
  have hsub : leaves entry.2 ⊆ leaves (.object entries) := by
    rw [leaves, leavesOfEntries_eq]
    exact fun leaf hleaf => mem_flatMap.mpr ⟨entry, hentry, hleaf⟩
  exact ⟨fun name hname => h.noVariable name (hsub hname), fun f hf => h.finite f (hsub hf)⟩

theorem stringsUnescaped_leaf (hleaves : leaves value = [value]) (hvalue : ∀ s, value ≠ .string s) :
    StringsUnescaped value := by
  intro s hs
  rw [hleaves] at hs
  exact absurd (mem_singleton.mp hs).symm (hvalue s)

/-! ### The text of a literal -/

mutual

/-- The text of a literal reads back exactly when its strings have no character that would need another escape. -/
theorem readsBack_printed : ∀ value : Value, IsLiteral value →
    ReadsBack (printed value) (denoted value) (StringsUnescaped value)
  | .string s, _ => by
    rw [printed, denoted]
    have hread := readsBack_string s.toList
    rw [String.ofList_toList] at hread
    exact readsBack_congr hread ⟨fun h t ht => by
      obtain rfl := Value.string.inj (mem_singleton.mp ht)
      exact h, fun h => h s (mem_singleton.mpr rfl)⟩
  | .int n, _ => by
    rw [printed, denoted]
    exact readsBack_congr (readsBack_numeral (numeral_int _)) (iff_of_true trivial (stringsUnescaped_leaf rfl nofun))
  | .float f, h => by
    obtain ⟨q, hdisplay, hjson⟩ := h.finite f (mem_singleton.mpr rfl)
    rw [printed, denoted, hjson, Option.getD_some]
    exact readsBack_congr (readsBack_numeral hdisplay) (iff_of_true trivial (stringsUnescaped_leaf rfl nofun))
  | .boolean b, _ => by
    rw [printed, denoted]
    cases b <;> exact readsBack_congr (readsBack_word (by simp)) (iff_of_true trivial (stringsUnescaped_leaf rfl nofun))
  | .null, _ => by
    rw [printed, denoted]
    exact readsBack_congr (readsBack_word (by simp)) (iff_of_true trivial (stringsUnescaped_leaf rfl nofun))
  | .enum name, _ => by
    rw [printed, denoted]
    have hread := readsBack_name name.text.toList (name_standsForItself name)
    rw [String.ofList_toList] at hread
    exact readsBack_congr hread (iff_of_true trivial (stringsUnescaped_leaf rfl nofun))
  | .variable name, h => absurd (mem_singleton.mpr rfl) (h.noVariable name)
  | .list items, h => by
    rw [printed, denoted, printedItems_eq, denotedItems_eq]
    refine readsBack_congr (readsBack_array (items.map itemCell) ?_) ?_
    · rw [forall_mem_map]
      exact readsBack_items items fun item hitem => h.item hitem
    · rw [forall_mem_map]
      exact stringsUnescaped_items items
  | .object entries, h => by
    rw [printed, denoted, printedEntries_eq, denotedEntries_eq]
    refine readsBack_congr (readsBack_object (entries.map entryMember) ?_ ?_) ?_
    · rw [forall_mem_map]
      exact fun entry _ => name_standsForItself entry.1
    · rw [forall_mem_map]
      exact readsBack_entries entries fun entry hentry => h.entry hentry
    · rw [forall_mem_map]
      exact stringsUnescaped_entries entries

theorem readsBack_items : ∀ items : List Value, (∀ item ∈ items, IsLiteral item) →
    ∀ item ∈ items, ReadsBack (printed item) (denoted item) (StringsUnescaped item)
  | [], _ => nofun
  | item :: items, h => by
    obtain ⟨hitem, hitems⟩ := forall_mem_cons.mp h
    exact forall_mem_cons.mpr ⟨readsBack_printed item hitem, readsBack_items items hitems⟩

theorem readsBack_entries : ∀ entries : List (Name × Value), (∀ entry ∈ entries, IsLiteral entry.2) →
    ∀ entry ∈ entries, ReadsBack (printed entry.2) (denoted entry.2) (StringsUnescaped entry.2)
  | [], _ => nofun
  | (key, value) :: entries, h => by
    obtain ⟨hvalue, hentries⟩ := forall_mem_cons.mp h
    exact forall_mem_cons.mpr ⟨readsBack_printed value hvalue, readsBack_entries entries hentries⟩

end

/-- The text of a literal within the limit decodes to it exactly when no string needs another escape. -/
theorem serializeValue_decodes_iff (hliteral : IsLiteral value) (hheight : height value ≤ maxSerializeDepth) :
    Decodes (serializeValue value).toList (denoted value) ↔ StringsUnescaped value := by
  have hread := readsBack_printed value hliteral []
  rw [serializeValue_toList hheight]
  simp only [append_nil] at hread
  constructor
  · rintro ⟨rest, hvalue, -⟩
    exact ((hread rest nofun).mp hvalue).1
  · exact fun h => ⟨[], (hread [] nofun).mpr ⟨h, rfl⟩, rfl⟩

/-! ### Strings and variables -/

/-- The name of a variable: it is not empty and does not start with a digit. -/
def Name.Proper (name : Name) : Prop := ∃ c ∈ name.text.toList.head?, c.isDigit = false

theorem escapedQuotes_eq_iff {t : List Char} (ht : ∀ c ∈ t, c ≠ '"' ∧ c ≠ '\\') : escapedQuotes s = t ↔ s = t := by
  induction t generalizing s with
  | nil =>
    constructor
    · intro h
      cases s with
      | nil => rfl
      | cons c s =>
        rw [escapedQuotes, flatMap_cons, append_eq_nil_iff] at h
        split_ifs at h <;> cases h.1
    · rintro rfl
      rfl
  | cons c t ih =>
    obtain ⟨⟨hquote, hbackslash⟩, ht⟩ := forall_mem_cons.mp ht
    constructor
    · intro h
      have htext : escapedQuotes s ++ '"' :: [] = c :: (t ++ ['"']) := by rw [h, cons_append]
      obtain ⟨s', rfl, hrest⟩ := escapedQuotes_start hquote hbackslash htext
      rw [(ih ht).mp (append_cancel_right hrest)]
    · rintro rfl
      rw [escapedQuotes_cons hquote, (ih ht).mpr rfl]

/-- A string has the text of a variable exactly when it is the dollar sign and its name. -/
theorem string_text_eq_variable_iff {s : String} {name : Name} :
    serializeValue (.string s) = serializeValue (.variable name) ↔ s = "$" ++ name.text := by
  have hchars : ∀ c ∈ '$' :: name.text.toList, c ≠ '"' ∧ c ≠ '\\' := by
    refine forall_mem_cons.mpr ⟨by decide, ?_⟩
    exact fun c hc => ⟨(name_standsForItself name c hc).1, (name_standsForItself name c hc).2.1⟩
  have hshort : ∀ {value : Value}, height value = 0 → (serializeValue value).toList = printed value :=
    fun h => serializeValue_toList (h ▸ Nat.zero_le _)
  rw [← String.toList_inj, ← String.toList_inj, hshort rfl, hshort rfl, printed, printed, String.toList_append]
  have hquotes : ('"' :: escapedQuotes s.toList ++ ['"'] = '"' :: '$' :: name.text.toList ++ ['"']) ↔
      escapedQuotes s.toList = '$' :: name.text.toList := by
    constructor
    · intro h
      have htail : escapedQuotes s.toList ++ ['"'] = ('$' :: name.text.toList) ++ ['"'] := (cons.inj h).2
      exact append_cancel_right htail
    · intro h
      rw [h]
  rw [hquotes, escapedQuotes_eq_iff hchars]
  rfl

/-- Literals survive as their text, and no string has the text of a variable, exactly when every string has neither a
backslash nor a control character and is not a dollar sign with a name. -/
theorem serializeValue_survives_iff {value : Value} (hliteral : IsLiteral value)
    (hheight : height value ≤ maxSerializeDepth) :
    (Decodes (serializeValue value).toList (denoted value) ∧ ∀ s, .string s ∈ leaves value → ∀ name : Name,
        name.Proper → serializeValue (.string s) ≠ serializeValue (.variable name)) ↔
      ∀ s, .string s ∈ leaves value → (∀ c ∈ s.toList, c ≠ '\\' ∧ 32 ≤ c.toNat) ∧
        ∀ name : Name, name.Proper → s ≠ "$" ++ name.text := by
  simp only [serializeValue_decodes_iff hliteral hheight, ne_eq, string_text_eq_variable_iff]
  exact ⟨fun h s hs => ⟨h.1 s hs, h.2 s hs⟩, fun h => ⟨fun s hs => (h s hs).1, fun s hs => (h s hs).2⟩⟩

/-- `{ name: "Ann \"A\"", ids: [1, -2] }`. -/
def annArgument : Value :=
  .object [(⟨"ids", .refl true⟩, .list [.int 1, .int (-2)]), (⟨"name", .refl true⟩, .string "Ann \"A\"")]

theorem ann_survives : Decodes (serializeValue annArgument).toList
    (.obj [("ids", .arr [.num 1, .num (-2)]), ("name", .str "Ann \"A\"")]) := by
  have hliteral : IsLiteral annArgument := by
    constructor <;> simp [annArgument, leaves, leavesOfEntries, leavesOfItems]
  have hstrings : ∀ s, .string s ∈ leaves annArgument → (∀ c ∈ s.toList, c ≠ '\\' ∧ 32 ≤ c.toNat) ∧
      ∀ name : Name, name.Proper → s ≠ "$" ++ name.text := by
    intro s hs
    obtain rfl : s = "Ann \"A\"" := by simpa [annArgument, leaves, leavesOfEntries, leavesOfItems] using hs
    constructor
    · have hall : ("Ann \"A\"".toList.all fun c => c ≠ '\\' && 32 ≤ c.toNat) = true := by decide
      intro c hc
      simpa using all_eq_true.mp hall c hc
    · intro name _ heq
      have hlist := congrArg String.toList heq
      rw [String.toList_append] at hlist
      exact absurd (cons.inj hlist).1 (by decide)
  exact ((serializeValue_survives_iff hliteral (by decide)).mpr hstrings).1

/-- The string of a letter, a backslash and a letter. -/
theorem backslash_lost : IsLiteral (.string "a\\b") ∧ height (.string "a\\b") ≤ maxSerializeDepth ∧
    ¬Decodes (serializeValue (.string "a\\b")).toList (denoted (.string "a\\b")) := by
  have hliteral : IsLiteral (.string "a\\b") := by
    constructor <;> simp [leaves]
  refine ⟨hliteral, by decide, ?_⟩
  rw [serializeValue_decodes_iff hliteral (by decide)]
  intro h
  exact absurd (h "a\\b" (mem_singleton.mpr rfl) '\\' (by decide)).1 (by decide)

end FraiseQL.Graphql
