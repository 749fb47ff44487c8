import Mathlib.Data.List.Basic

/-! Operations of Rust's `str` on lists of characters: white space, trimming, and searching for a text. -/

namespace RustText

open List

def isWhitespace (c : Char) : Bool :=
  let n := c.toNat
  decide (9 ≤ n ∧ n ≤ 13) || decide (n ∈ [0x20, 0x85, 0xA0, 0x1680, 0x2028, 0x2029, 0x202F, 0x205F, 0x3000]) ||
    decide (0x2000 ≤ n ∧ n ≤ 0x200A)

/-- The letters and digits of a version of Unicode, `char::is_alphabetic` and `char::is_alphanumeric`: among
the ASCII characters they are what everyone knows. -/
structure Letters where
  isAlphabetic : Char → Bool
  isAlphanumeric : Char → Bool
  ascii_alphabetic : ∀ c : Char, c.toNat < 128 → isAlphabetic c = c.isAlpha
  ascii_alphanumeric : ∀ c : Char, c.toNat < 128 → isAlphanumeric c = c.isAlphanum
  alphanumeric_of_alphabetic : ∀ c, isAlphabetic c = true → isAlphanumeric c = true

/-- The letters and digits of ASCII alone. -/
def asciiLetters : Letters where
  isAlphabetic := Char.isAlpha
  isAlphanumeric := Char.isAlphanum
  ascii_alphabetic _ _ := rfl
  ascii_alphanumeric _ _ := rfl
  alphanumeric_of_alphabetic c h := by rw [Char.isAlphanum, h, Bool.true_or]

def trimStart (cs : List Char) : List Char := cs.dropWhile isWhitespace

def trimMatches (p : Char → Bool) (cs : List Char) : List Char :=
  ((cs.dropWhile p).reverse.dropWhile p).reverse

def trim (cs : List Char) : List Char := trimMatches isWhitespace cs

/-- `split_once`: what stands before the first occurrence of a text, and what follows it. -/
def splitOnce (pattern : List Char) : List Char → Option (List Char × List Char)
  | [] => if pattern.isEmpty then some ([], []) else none
  | c :: cs =>
    if pattern.isPrefixOf (c :: cs) then some ([], (c :: cs).drop pattern.length)
    else (splitOnce pattern cs).map fun parts => (c :: parts.1, parts.2)

/-- `contains`. -/
def containsText (pattern cs : List Char) : Bool := (splitOnce pattern cs).isSome

/-- `strip_prefix`. -/
def stripStart (start cs : List Char) : Option (List Char) :=
  if start.isPrefixOf cs then some (cs.drop start.length) else none

/-- A text is split where a character first stands. -/
theorem splitOnce_singleton {c : Char} {cs first second : List Char} :
    splitOnce [c] cs = some (first, second) ↔ cs = first ++ c :: second ∧ c ∉ first := by
  induction cs generalizing first with
  | nil => exact ⟨nofun, fun h => absurd h.1.symm (append_ne_nil_of_right_ne_nil _ nofun)⟩
  | cons d cs ih =>
    rw [splitOnce]
    by_cases hd : d = c
    · rw [hd, if_pos (by simp)]
      constructor
      · intro h
        obtain ⟨rfl, rfl⟩ := Prod.mk.inj (Option.some.inj h)
        exact ⟨rfl, not_mem_nil⟩
      · rintro ⟨heq, hnot⟩
        cases first with
        | nil =>
          cases heq
          rfl
        | cons a first =>
          obtain ⟨rfl, -⟩ := cons.inj heq
          exact absurd mem_cons_self hnot
    · rw [if_neg (by simpa using fun heq => hd heq.symm), Option.map_eq_some_iff]
      constructor
      · rintro ⟨⟨first', second'⟩, hrest, heq⟩
        obtain ⟨rfl, rfl⟩ := Prod.mk.inj heq
        obtain ⟨rfl, hnot⟩ := ih.mp hrest
        refine ⟨rfl, ?_⟩
        rw [mem_cons, not_or]
        exact ⟨fun heq => hd heq.symm, hnot⟩
      · rintro ⟨heq, hnot⟩
        cases first with
        | nil => exact absurd (cons.inj heq).1 hd
        | cons a first =>
          obtain ⟨rfl, hrest⟩ := cons.inj heq
          exact ⟨(first, second), ih.mpr ⟨hrest, fun hmem => hnot (mem_cons_of_mem _ hmem)⟩, rfl⟩

theorem splitOnce_singleton_eq_none {c : Char} {cs : List Char} : splitOnce [c] cs = none ↔ c ∉ cs := by
  induction cs with
  | nil => simp [splitOnce]
  | cons d cs ih =>
    rw [splitOnce]
    by_cases hd : d = c
    · rw [hd, if_pos (by simp)]
      simp
    · rw [if_neg (by simpa using fun heq => hd heq.symm), Option.map_eq_none_iff, ih, mem_cons, not_or]
      exact ⟨fun h => ⟨fun heq => hd heq.symm, h⟩, And.right⟩

/-- The parts of a text between separators have none in them, and nothing that the text has not. -/
theorem mem_splitOn {separator : Char} {cs part : List Char} (h : part ∈ cs.splitOn separator) :
    separator ∉ part ∧ ∀ c ∈ part, c ∈ cs := by
  induction cs generalizing part with
  | nil =>
    rw [splitOn_nil, mem_singleton] at h
    subst h
    simp
  | cons c cs ih =>
    rw [splitOn_cons_eq_if_modifyHead] at h
    split at h
    · rcases mem_cons.mp h with rfl | h
      · simp
      · obtain ⟨hsep, hmem⟩ := ih h
        exact ⟨hsep, fun x hx => mem_cons_of_mem c (hmem x hx)⟩
    · next hc =>
        have hne := splitOn_ne_nil separator cs
        generalize cs.splitOn separator = parts at h ih hne
        cases parts with
        | nil => exact absurd rfl hne
        | cons first parts =>
          rw [modifyHead_cons, mem_cons] at h
          rcases h with rfl | h
          · obtain ⟨hsep, hmem⟩ := ih mem_cons_self
            constructor
            · simpa [Ne.symm (by simpa using hc)] using hsep
            · rw [forall_mem_cons]
              exact ⟨mem_cons_self, fun x hx => mem_cons_of_mem c (hmem x hx)⟩
          · obtain ⟨hsep, hmem⟩ := ih (mem_cons_of_mem first h)
            exact ⟨hsep, fun x hx => mem_cons_of_mem c (hmem x hx)⟩

theorem trimMatches_sublist (p : Char → Bool) (cs : List Char) : (trimMatches p cs).Sublist cs :=
  ((dropWhile_sublist p).reverse.trans (reverse_reverse _ ▸ List.Sublist.refl _)).trans
    (dropWhile_sublist p)

/-- Nothing is trimmed from a text whose first and last characters stay. -/
theorem trimMatches_eq_self {p : Char → Bool} {cs : List Char} (hhead : ∀ c ∈ cs.head?, ¬ p c = true)
    (hlast : ∀ c ∈ cs.getLast?, ¬ p c = true) : trimMatches p cs = cs := by
  have hkeeps : ∀ as : List Char, (∀ c ∈ as.head?, ¬ p c = true) → as.dropWhile p = as := by
    intro as has
    cases as with
    | nil => rfl
    | cons a as => exact dropWhile_cons_of_neg (has a rfl)
  rw [trimMatches, hkeeps cs hhead, hkeeps cs.reverse (by rwa [head?_reverse]), reverse_reverse]

end RustText
