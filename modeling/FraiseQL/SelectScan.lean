import FraiseQL.SelectGrammar
import Mathlib.Data.List.TakeWhile

/-! How `parse_select_entries` walks over a text: where characters say that names, suffixes and inner lists stand, and
what it cuts out there by bytes. -/

namespace FraiseQL.Rest

open RustText List Nat

/-- How the characters of a text are grouped around its first name. -/
structure Laid (text gap raw spaces tail : List Char) : Prop where
  text_eq : text = gap ++ (raw ++ (spaces ++ tail))
  gapAll : ∀ c ∈ gap, isGap c = true
  gapEnds : ∀ c ∈ (raw ++ (spaces ++ tail)).head?, ¬ isGap c = true
  rawAll : ∀ c ∈ raw, inHead c = true
  rawEnds : ∀ c ∈ (spaces ++ tail).head?, ¬ inHead c = true
  spacesAll : ∀ c ∈ spaces, c = ' '
  spacesEnd : ∀ c ∈ tail.head?, c ≠ ' '

/-- What is read behind a name, at an index that no space stands at. -/
def readAfter (fuel : Nat) (input : List Char) (j : Nat) (name : List Char) : Selected (List SelectEntry) :=
  match input[j]? with
  | some '.' => do
    let stop := scanWhile (fun c => c ∉ [',', ' ']) input (j + 1)
    let suffix ← Refusal.slice input (j + 1) stop
    if suffix = "count".toList then do
      let entries ← readSelectEntries fuel input stop
      return .count (String.ofList name) :: entries
    else invalidSelect ("Unsupported dot-suffix '" ++ String.ofList suffix ++
      "' in `select`. Only `.count` is supported.")
  | some '(' => do
    let (rename, relationship) := match RustText.splitOnce [':'] name with
      | some (rename, relationship) => (some (String.ofList rename), String.ofList relationship)
      | none => (none, String.ofList name)
    match closingParen 1 (input.drop (j + 1)) with
    | none => invalidSelect ("Unbalanced parentheses in `select` for '" ++ relationship ++ "'")
    | some n => do
      let inner ← Refusal.slice input (j + 1) (j + 1 + n)
      let fields ← readSelectEntries fuel inner 0
      let entries ← readSelectEntries fuel input (j + 1 + n + 1)
      return .embedded relationship rename fields :: entries
  | _ => do
    let entries ← readSelectEntries fuel input j
    return .field (String.ofList name) :: entries

theorem scanWhile_append {p : Char → Bool} {as bs : List Char} (has : ∀ c ∈ as, p c = true)
    (hbs : ∀ c ∈ bs.head?, ¬ p c = true) (before : List Char) :
    scanWhile p (before ++ (as ++ bs)) before.length = before.length + as.length := by
  have hstop : bs.takeWhile p = [] := by
    cases bs with
    | nil => rfl
    | cons b bs => exact takeWhile_cons_of_neg (hbs b rfl)
  rw [scanWhile, drop_left, takeWhile_append_of_pos has, hstop, append_nil]

/-- `count` bytes of a text, from the byte whose number is that of the characters passed. -/
def cut (passed rest : List Char) (count : Nat) : Option (List Char) :=
  sliceBytes (passed ++ rest) passed.length (passed.length + count)

/-- What is done with bytes cut out; between the bytes of one character the parser panics. -/
def taken {α : Type} (part : Option (List Char)) (next : List Char → Selected α) : Selected α :=
  match part with
  | some part => next part
  | none => .error .panicked

variable {α : Type}

@[simp] theorem taken_some (part : List Char) (next : List Char → Selected α) :
    taken (some part) next = next part := rfl

variable {rest : List Char}

theorem slice_eq {input passed : List Char} (h : input = passed ++ rest) (count : Nat) (next : List Char → Selected α) :
    Refusal.slice input passed.length (passed.length + count) >>= next = taken (cut passed rest count) next := by
  rw [h, cut, Refusal.slice]
  cases sliceBytes (passed ++ rest) passed.length (passed.length + count) <;> rfl

variable {text gap raw spaces tail : List Char}

/-- Behind a gap the text is either over, or has a name cut out of it. -/
theorem read_laid (h : Laid text gap raw spaces tail) (fuel : Nat) (before : List Char) :
    readSelectEntries (fuel + 1) (before ++ text) before.length =
      if raw ++ (spaces ++ tail) = [] then .ok []
      else taken (cut (before ++ gap) (raw ++ (spaces ++ tail)) raw.length) fun part =>
        if trim part = [] then invalidSelect "Empty field name in `select` parameter"
        else readAfter fuel (before ++ (gap ++ (raw ++ spaces)) ++ tail) (before ++ (gap ++ (raw ++ spaces))).length
          (trim part) := by
  have hgap : scanWhile (fun c => c = ',' || c = ' ') (before ++ text) before.length = (before ++ gap).length := by
    rw [h.text_eq, length_append]
    exact scanWhile_append (p := isGap) h.gapAll h.gapEnds before
  have hraw : scanWhile (fun c => c ∉ ['(', ',', '.', ' ']) (before ++ text) (before ++ gap).length =
      (before ++ gap).length + raw.length := by
    rw [h.text_eq, ← append_assoc]
    exact scanWhile_append (p := inHead) h.rawAll h.rawEnds (before ++ gap)
  have hspaces : scanWhile (fun c => c = ' ') (before ++ text) ((before ++ gap).length + raw.length) =
      (before ++ (gap ++ (raw ++ spaces))).length := by
    rw [h.text_eq, ← length_append, ← append_assoc before, ← append_assoc _ raw,
      scanWhile_append (by simpa using h.spacesAll) (by simpa using h.spacesEnd)]
    simp only [length_append, add_assoc]
  have hover : (before ++ text).length ≤ (before ++ gap).length ↔ raw ++ (spaces ++ tail) = [] := by
    rw [h.text_eq, ← append_assoc before, length_append, ← length_eq_zero_iff]
    omega
  have htext : before ++ text = before ++ gap ++ (raw ++ (spaces ++ tail)) ∧
      before ++ text = before ++ (gap ++ (raw ++ spaces)) ++ tail := by
    rw [h.text_eq]
    simp only [append_assoc, and_self]
  rw [readSelectEntries]
  simp only [hgap, hraw, hspaces, hover]
  rw [← slice_eq htext.1, ← htext.2]
  rfl

/-! ### Behind a name -/

/-- A name before a list, taken apart at its first colon. -/
def splitHead (name : List Char) : Option String × String :=
  match RustText.splitOnce [':'] name with
  | some (rename, relationship) => (some (String.ofList rename), String.ofList relationship)
  | none => (none, String.ofList name)

/-- A suffix ends where the text does or at a gap. -/
def inSuffix (c : Char) : Bool := c ∉ [',', ' ']

/-- What follows a name, by its first character. -/
inductive Behind : List Char → Prop
  | flat {tail : List Char} (h : ∀ c ∈ tail.head?, c ≠ '.' ∧ c ≠ '(') : Behind tail
  | dotted {suffix more : List Char} (hsuffix : ∀ c ∈ suffix, inSuffix c = true)
      (hmore : ∀ c ∈ more.head?, ¬ inSuffix c = true) : Behind ('.' :: (suffix ++ more))
  | unclosed {more : List Char} (h : closingParen 1 more = none) : Behind ('(' :: more)
  | group {inner more : List Char} (h : closingParen 1 (inner ++ ')' :: more) = some inner.length) :
      Behind ('(' :: (inner ++ ')' :: more))

theorem readAfter_flat (h : ∀ c ∈ tail.head?, c ≠ '.' ∧ c ≠ '(') (fuel : Nat) (before name : List Char) :
    readAfter fuel (before ++ tail) before.length name =
      readSelectEntries fuel (before ++ tail) before.length >>= fun entries =>
        pure (.field (String.ofList name) :: entries) := by
  have hat : (before ++ tail)[before.length]? = tail.head? := by
    rw [getElem?_append_right (Nat.le_refl _), Nat.sub_self, head?_eq_getElem?]
  rw [readAfter, hat]
  split
  · rename_i hdot
    exact absurd rfl (h _ hdot).1
  · rename_i hopen
    exact absurd rfl (h _ hopen).2
  · rfl

variable {more : List Char}

theorem readAfter_dotted {suffix : List Char} (hsuffix : ∀ c ∈ suffix, inSuffix c = true)
    (hmore : ∀ c ∈ more.head?, ¬ inSuffix c = true) (fuel : Nat) (before name : List Char) :
    readAfter fuel (before ++ '.' :: (suffix ++ more)) before.length name =
      taken (cut (before ++ ['.']) (suffix ++ more) suffix.length) fun word =>
        if word = "count".toList then
          readSelectEntries fuel (before ++ '.' :: suffix ++ more) (before ++ '.' :: suffix).length >>= fun entries =>
            pure (.count (String.ofList name) :: entries)
        else invalidSelect ("Unsupported dot-suffix '" ++ String.ofList word ++
          "' in `select`. Only `.count` is supported.") := by
  have hat : (before ++ '.' :: (suffix ++ more))[before.length]? = some '.' := by simp
  have hscan : scanWhile (fun c => c ∉ [',', ' ']) (before ++ '.' :: (suffix ++ more)) (before.length + 1) =
      before.length + 1 + suffix.length := by
    have hscan := scanWhile_append hsuffix hmore (before ++ ['.'])
    rwa [append_assoc, length_append] at hscan
  have hlength : (before ++ '.' :: suffix).length = before.length + 1 + suffix.length := by simp; omega
  have hsplit : before ++ '.' :: suffix ++ more = before ++ '.' :: (suffix ++ more) := append_assoc _ _ _
  rw [readAfter, hat, hsplit, ← slice_eq (append_assoc before ['.'] (suffix ++ more)).symm]
  simp only [hscan, hlength, length_append, length_singleton]
  rfl

theorem readAfter_unclosed (h : closingParen 1 more = none) (fuel : Nat) (before name : List Char) :
    readAfter fuel (before ++ '(' :: more) before.length name =
      invalidSelect ("Unbalanced parentheses in `select` for '" ++ (splitHead name).2 ++ "'") := by
  have hat : (before ++ '(' :: more)[before.length]? = some '(' := by simp
  have hdrop : (before ++ '(' :: more).drop (before.length + 1) = more := by simp [drop_append]
  rw [readAfter, hat]
  simp only [hdrop, h]
  rw [splitHead]

theorem readAfter_group {inner : List Char} (h : closingParen 1 (inner ++ ')' :: more) = some inner.length)
    (fuel : Nat) (before name : List Char) :
    readAfter fuel (before ++ '(' :: (inner ++ ')' :: more)) before.length name =
      taken (cut (before ++ ['(']) (inner ++ ')' :: more) inner.length) fun part =>
        readSelectEntries fuel part 0 >>= fun fields =>
          readSelectEntries fuel (before ++ '(' :: (inner ++ [')']) ++ more)
              (before ++ '(' :: (inner ++ [')'])).length >>= fun entries =>
            pure (.embedded (splitHead name).2 (splitHead name).1 fields :: entries) := by
  have hat : (before ++ '(' :: (inner ++ ')' :: more))[before.length]? = some '(' := by simp
  have hdrop : (before ++ '(' :: (inner ++ ')' :: more)).drop (before.length + 1) = inner ++ ')' :: more := by simp [drop_append]
  have hlength : (before ++ '(' :: (inner ++ [')'])).length = before.length + 1 + inner.length + 1 := by
    rw [length_append, length_cons, length_append, length_singleton]
    omega
  have hsplit : before ++ '(' :: (inner ++ [')']) ++ more = before ++ '(' :: (inner ++ ')' :: more) := by simp
  rw [readAfter, hat, hsplit, ← slice_eq (append_assoc before ['('] (inner ++ ')' :: more)).symm]
  simp only [hdrop, h, hlength, length_append, length_singleton]
  rw [splitHead]
  rfl

/-! ### Every text is laid out -/

theorem head?_dropWhile_neg {p : Char → Bool} (cs : List Char) : ∀ c ∈ (cs.dropWhile p).head?, ¬ p c = true := by
  intro c hc
  rw [Option.mem_def] at hc
  have hneg := head?_dropWhile_not p cs
  rw [hc] at hneg
  simpa using hneg

theorem exists_laid (text : List Char) : ∃ gap raw spaces tail, Laid text gap raw spaces tail := by
  refine ⟨text.takeWhile isGap, (text.dropWhile isGap).takeWhile inHead,
    ((text.dropWhile isGap).dropWhile inHead).takeWhile (fun c => c = ' '),
    ((text.dropWhile isGap).dropWhile inHead).dropWhile (fun c => c = ' '), ?_⟩
  constructor
  · simp only [takeWhile_append_dropWhile]
  · exact fun c hc => mem_takeWhile_imp hc
  · simp only [takeWhile_append_dropWhile]
    exact head?_dropWhile_neg text
  · exact fun c hc => mem_takeWhile_imp hc
  · simp only [takeWhile_append_dropWhile]
    exact head?_dropWhile_neg _
  · exact fun c hc => by simpa using mem_takeWhile_imp hc
  · exact fun c hc => by simpa using head?_dropWhile_neg (p := fun c => c = ' ') _ c hc

/-- The parenthesis that closes stands behind as many characters as are counted. -/
theorem closingParen_some {depth n : Nat} {cs : List Char} (h : closingParen depth cs = some n) :
    ∃ inner more, cs = inner ++ ')' :: more ∧ inner.length = n := by
  induction cs generalizing depth n with
  | nil => cases h
  | cons c cs ih =>
    have hlater : ∀ {d : Nat}, (closingParen d cs).map (· + 1) = some n →
        ∃ inner more, c :: cs = inner ++ ')' :: more ∧ inner.length = n := by
      intro d hd
      obtain ⟨m, hm, rfl⟩ := Option.map_eq_some_iff.mp hd
      obtain ⟨inner, more, rfl, rfl⟩ := ih hm
      exact ⟨c :: inner, more, rfl, rfl⟩
    rw [closingParen] at h
    split at h
    · exact hlater h
    · split at h
      · rename_i hclose
        split at h
        · cases h
          exact ⟨[], cs, by rw [hclose]; rfl, rfl⟩
        · exact hlater h
      · exact hlater h

theorem behind (tail : List Char) : Behind tail := by
  cases tail with
  | nil => exact .flat nofun
  | cons c cs =>
    by_cases hdot : c = '.'
    · rw [hdot, ← takeWhile_append_dropWhile (p := inSuffix) (l := cs)]
      exact .dotted (fun c hc => mem_takeWhile_imp hc) (head?_dropWhile_neg cs)
    · by_cases hopen : c = '('
      · rw [hopen]
        cases hclose : closingParen 1 cs with
        | none => exact .unclosed hclose
        | some n =>
          obtain ⟨inner, more, rfl, rfl⟩ := closingParen_some hclose
          exact .group hclose
      · exact .flat fun d hd => by
          cases hd
          exact ⟨hdot, hopen⟩

/-! ### Walks -/

/-- How the parser ends, where it does not panic. -/
inductive Verdict where
  | accepted | refused

def verdict : Selected (List SelectEntry) → Option Verdict
  | .ok _ => some .accepted
  | .error (.error _) => some .refused
  | .error .panicked => none

/-- A text from some place on begins with a name: the bytes cut out for it are not blank. -/
structure Named (before text gap raw spaces tail : List Char) : Prop extends Laid text gap raw spaces tail where
  named : ∃ part, cut (before ++ gap) (raw ++ (spaces ++ tail)) raw.length = some part ∧ trim part ≠ []

/-- A walk over the entries of a text, from some place on. Characters say where names, suffixes and lists stand, and the
bytes of the same numbers are cut out for them: at a blank name, another suffix than `count`, a parenthesis that nothing
closes or a list that is itself refused the text is refused, and otherwise it is accepted. -/
inductive Walk : List Char → List Char → Verdict → Prop
  | ended {before gap : List Char} (hgap : ∀ c ∈ gap, isGap c = true) : Walk before gap .accepted
  | unnamed {before text gap raw spaces tail part : List Char} (h : Laid text gap raw spaces tail)
      (hmore : raw ++ (spaces ++ tail) ≠ []) (hpart : cut (before ++ gap) (raw ++ (spaces ++ tail)) raw.length = some part)
      (hblank : trim part = []) : Walk before text .refused
  | flat {before text gap raw spaces tail : List Char} {v : Verdict} (h : Named before text gap raw spaces tail)
      (htail : ∀ c ∈ tail.head?, c ≠ '.' ∧ c ≠ '(') (hnext : Walk (before ++ (gap ++ (raw ++ spaces))) tail v) :
      Walk before text v
  | misspelt {before text gap raw spaces suffix more word : List Char}
      (h : Named before text gap raw spaces ('.' :: (suffix ++ more))) (hsuffix : ∀ c ∈ suffix, inSuffix c = true)
      (hmore : ∀ c ∈ more.head?, ¬ inSuffix c = true)
      (hword : cut (before ++ (gap ++ (raw ++ spaces)) ++ ['.']) (suffix ++ more) suffix.length = some word)
      (hne : word ≠ "count".toList) : Walk before text .refused
  | counted {before text gap raw spaces suffix more : List Char} {v : Verdict}
      (h : Named before text gap raw spaces ('.' :: (suffix ++ more))) (hsuffix : ∀ c ∈ suffix, inSuffix c = true)
      (hmore : ∀ c ∈ more.head?, ¬ inSuffix c = true)
      (hword : cut (before ++ (gap ++ (raw ++ spaces)) ++ ['.']) (suffix ++ more) suffix.length = some "count".toList)
      (hnext : Walk (before ++ (gap ++ (raw ++ spaces)) ++ '.' :: suffix) more v) : Walk before text v
  | unclosed {before text gap raw spaces more : List Char} (h : Named before text gap raw spaces ('(' :: more))
      (hopen : closingParen 1 more = none) : Walk before text .refused
  | group {before text gap raw spaces inner more part : List Char} {v : Verdict}
      (h : Named before text gap raw spaces ('(' :: (inner ++ ')' :: more)))
      (hclose : closingParen 1 (inner ++ ')' :: more) = some inner.length)
      (hpart : cut (before ++ (gap ++ (raw ++ spaces)) ++ ['(']) (inner ++ ')' :: more) inner.length = some part)
      (hinner : Walk [] part .accepted)
      (hnext : Walk (before ++ (gap ++ (raw ++ spaces)) ++ '(' :: (inner ++ [')'])) more v) : Walk before text v
  | inside {before text gap raw spaces inner more part : List Char}
      (h : Named before text gap raw spaces ('(' :: (inner ++ ')' :: more)))
      (hclose : closingParen 1 (inner ++ ')' :: more) = some inner.length)
      (hpart : cut (before ++ (gap ++ (raw ++ spaces)) ++ ['(']) (inner ++ ')' :: more) inner.length = some part)
      (hinner : Walk [] part .refused) : Walk before text .refused

variable {before part : List Char}

/-- Bytes are cut out only where there are characters. -/
theorem raw_ne_nil (hpart : cut (before ++ gap) rest raw.length = some part) (hname : trim part ≠ []) : raw ≠ [] := by
  intro hraw
  have hbytes := byteLength_sliceBytes hpart
  rw [hraw, length_nil, Nat.add_zero, Nat.sub_self] at hbytes
  have hempty : part = [] := eq_nil_of_length_eq_zero (Nat.le_zero.mp (hbytes ▸ length_le_byteLength part))
  exact hname (by rw [hempty]; rfl)

theorem length_cut_le {passed : List Char} {count : Nat} (h : cut passed rest count = some part) :
    part.length ≤ count := by
  have hbytes := byteLength_sliceBytes h
  have hle := length_le_byteLength part
  omega

/-- Where a name is cut out, the parser goes on behind it. -/
theorem read_named (h : Laid text gap raw spaces tail)
    (hpart : cut (before ++ gap) (raw ++ (spaces ++ tail)) raw.length = some part) (hname : trim part ≠ [])
    (fuel : Nat) :
    readSelectEntries (fuel + 1) (before ++ text) before.length =
      readAfter fuel (before ++ (gap ++ (raw ++ spaces)) ++ tail) (before ++ (gap ++ (raw ++ spaces))).length
        (trim part) := by
  have hmore : raw ++ (spaces ++ tail) ≠ [] := fun hnil =>
    raw_ne_nil hpart hname (append_eq_nil_iff.mp hnil).1
  rw [read_laid h, if_neg hmore, hpart]
  exact if_neg hname

theorem read_ended (hgap : ∀ c ∈ gap, isGap c = true) (fuel : Nat) (before : List Char) :
    readSelectEntries (fuel + 1) (before ++ gap) before.length = .ok [] := by
  have hlaid : Laid gap gap [] [] [] := ⟨by simp, hgap, nofun, nofun, nofun, nofun, nofun⟩
  rw [read_laid hlaid]
  exact if_pos rfl

theorem verdict_more (entry : SelectEntry) (more : Selected (List SelectEntry)) :
    verdict (more >>= fun entries => pure (entry :: entries)) = verdict more := by
  rcases more with refusal | entries
  · cases refusal <;> rfl
  · rfl

theorem Laid.length_eq (h : Laid text gap raw spaces tail) :
    text.length = gap.length + raw.length + spaces.length + tail.length := by
  rw [h.text_eq]
  simp only [length_append]
  omega

theorem Named.length_lt (h : Named before text gap raw spaces tail) : tail.length < text.length := by
  obtain ⟨part, hpart, hname⟩ := h.named
  have hpos := length_pos_of_ne_nil (raw_ne_nil hpart hname)
  rw [h.toLaid.length_eq]
  omega

theorem Named.read (h : Named before text gap raw spaces tail) {fuel : Nat} (hfuel : text.length < fuel) :
    ∃ fuel' name, tail.length < fuel' ∧ readSelectEntries fuel (before ++ text) before.length =
      readAfter fuel' (before ++ (gap ++ (raw ++ spaces)) ++ tail) (before ++ (gap ++ (raw ++ spaces))).length name := by
  obtain ⟨part, hpart, hname⟩ := h.named
  obtain ⟨fuel, rfl⟩ := exists_eq_add_one_of_ne_zero (ne_zero_of_lt hfuel)
  have hshort := h.length_lt
  exact ⟨fuel, trim part, by omega, read_named h.toLaid hpart hname fuel⟩

/-- The parser ends as the walk does. -/
theorem read_of_walk {v : Verdict} (h : Walk before text v) :
    ∀ fuel, text.length < fuel → verdict (readSelectEntries fuel (before ++ text) before.length) = some v := by
  induction h with
  | ended hgap =>
    intro fuel hfuel
    obtain ⟨fuel, rfl⟩ := exists_eq_add_one_of_ne_zero (ne_zero_of_lt hfuel)
    rw [read_ended hgap]
    rfl
  | unnamed h hmore hpart hblank =>
    intro fuel hfuel
    obtain ⟨fuel, rfl⟩ := exists_eq_add_one_of_ne_zero (ne_zero_of_lt hfuel)
    rw [read_laid h, if_neg hmore, hpart]
    exact congrArg verdict (if_pos hblank)
  | flat h htail _ ih =>
    intro fuel hfuel
    obtain ⟨fuel, name, hfuel, hread⟩ := h.read hfuel
    rw [hread, readAfter_flat htail, verdict_more]
    exact ih fuel hfuel
  | misspelt h hsuffix hmore hword hne =>
    intro fuel hfuel
    obtain ⟨fuel, name, hfuel, hread⟩ := h.read hfuel
    rw [hread, readAfter_dotted hsuffix hmore, hword]
    exact congrArg verdict (if_neg hne)
  | @counted before text gap raw spaces suffix more v h hsuffix hmore hword _ ih =>
    intro fuel hfuel
    obtain ⟨fuel, name, hfuel, hread⟩ := h.read hfuel
    rw [length_cons, length_append] at hfuel
    rw [hread, readAfter_dotted hsuffix hmore, hword]
    have hnext := ih fuel (by omega)
    exact (verdict_more _ _).trans hnext
  | unclosed h hopen =>
    intro fuel hfuel
    obtain ⟨fuel, name, hfuel, hread⟩ := h.read hfuel
    rw [hread, readAfter_unclosed hopen]
    rfl
  | @group before text gap raw spaces inner more part v h hclose hcut _ _ ihinner ih =>
    intro fuel hfuel
    obtain ⟨fuel, name, hfuel, hread⟩ := h.read hfuel
    have hle := length_cut_le hcut
    rw [length_cons, length_append, length_cons] at hfuel
    rw [hread, readAfter_group hclose, hcut]
    have hin := ihinner fuel (by omega)
    have hnext := ih fuel (by omega)
    cases hfields : readSelectEntries fuel part 0 with
    | error refusal =>
      rw [nil_append, length_nil, hfields] at hin
      cases refusal <;> cases hin
    | ok fields =>
      rw [taken_some, hfields]
      exact (verdict_more _ _).trans hnext
  | @inside before text gap raw spaces inner more part h hclose hcut _ ihinner =>
    intro fuel hfuel
    obtain ⟨fuel, name, hfuel, hread⟩ := h.read hfuel
    have hle := length_cut_le hcut
    rw [length_cons, length_append, length_cons] at hfuel
    rw [hread, readAfter_group hclose, hcut]
    have hin := ihinner fuel (by omega)
    rw [nil_append, length_nil] at hin
    cases hfields : readSelectEntries fuel part 0 with
    | ok fields =>
      rw [hfields] at hin
      cases hin
    | error refusal =>
      rw [hfields] at hin
      cases refusal with
      | panicked => cases hin
      | error e =>
        rw [taken_some, hfields]
        rfl

/-- Where the parser ends without a panic there is a walk that ends so. -/
theorem walk_of_read (fuel : Nat) : ∀ (before text : List Char) (v : Verdict), text.length < fuel →
    verdict (readSelectEntries fuel (before ++ text) before.length) = some v → Walk before text v := by
  induction fuel with
  | zero => exact fun _ _ _ hfuel => absurd hfuel (not_lt_zero _)
  | succ fuel ih =>
    intro before text v hfuel hread
    obtain ⟨gap, raw, spaces, tail, hlaid⟩ := exists_laid text
    by_cases hmore : raw ++ (spaces ++ tail) = []
    · rw [read_laid hlaid, if_pos hmore] at hread
      cases hread
      rw [hlaid.text_eq, hmore, append_nil]
      exact .ended hlaid.gapAll
    · rw [read_laid hlaid, if_neg hmore] at hread
      cases hpart : cut (before ++ gap) (raw ++ (spaces ++ tail)) raw.length with
      | none =>
        rw [hpart] at hread
        cases hread
      | some part =>
        rw [hpart, taken_some] at hread
        by_cases hname : trim part = []
        · rw [if_pos hname] at hread
          cases hread
          exact .unnamed hlaid hmore hpart hname
        · have hnamed : Named before text gap raw spaces tail := ⟨hlaid, part, hpart, hname⟩
          have hshort := hnamed.length_lt
          rw [if_neg hname] at hread
          cases behind tail with
          | flat htail =>
            rw [readAfter_flat htail, verdict_more] at hread
            exact .flat hnamed htail (ih _ _ _ (by omega) hread)
          | @dotted suffix more hsuffix hends =>
            rw [length_cons, length_append] at hshort
            rw [readAfter_dotted hsuffix hends] at hread
            cases hword : cut (before ++ (gap ++ (raw ++ spaces)) ++ ['.']) (suffix ++ more) suffix.length with
            | none =>
              rw [hword] at hread
              cases hread
            | some word =>
              rw [hword, taken_some] at hread
              by_cases hcount : word = "count".toList
              · rw [if_pos hcount, verdict_more] at hread
                exact .counted hnamed hsuffix hends (hcount ▸ hword) (ih _ _ _ (by omega) hread)
              · rw [if_neg hcount] at hread
                cases hread
                exact .misspelt hnamed hsuffix hends hword hcount
          | unclosed hopen =>
            rw [readAfter_unclosed hopen] at hread
            cases hread
            exact .unclosed hnamed hopen
          | @group inner more hclose =>
            rw [length_cons, length_append, length_cons] at hshort
            rw [readAfter_group hclose] at hread
            cases hcut : cut (before ++ (gap ++ (raw ++ spaces)) ++ ['(']) (inner ++ ')' :: more)
                inner.length with
            | none =>
              rw [hcut] at hread
              cases hread
            | some sub =>
              have hle := length_cut_le hcut
              have hin := ih [] sub
              rw [nil_append, length_nil] at hin
              rw [hcut, taken_some] at hread
              cases hfields : readSelectEntries fuel sub 0 with
              | error refusal =>
                rw [hfields] at hread hin
                cases refusal with
                | panicked => cases hread
                | error e =>
                  cases hread
                  exact .inside hnamed hclose hcut (hin .refused (by omega) rfl)
              | ok fields =>
                rw [hfields] at hread hin
                exact .group hnamed hclose hcut (hin .accepted (by omega) rfl)
                  (ih _ _ _ (by omega) ((verdict_more _ _).symm.trans hread))

/-- More fuel than characters changes nothing. -/
theorem read_fuel (fuel : Nat) : ∀ (before text : List Char) (more : Nat), text.length < fuel → text.length < more →
    readSelectEntries more (before ++ text) before.length = readSelectEntries fuel (before ++ text) before.length := by
  induction fuel with
  | zero => exact fun _ _ _ hfuel => absurd hfuel (not_lt_zero _)
  | succ fuel ih =>
    intro before text more hfuel hmore
    obtain ⟨more, rfl⟩ := exists_eq_add_one_of_ne_zero (ne_zero_of_lt hmore)
    obtain ⟨gap, raw, spaces, tail, hlaid⟩ := exists_laid text
    rw [read_laid hlaid, read_laid hlaid]
    by_cases hrest : raw ++ (spaces ++ tail) = []
    · rw [if_pos hrest, if_pos hrest]
    rw [if_neg hrest, if_neg hrest]
    cases hpart : cut (before ++ gap) (raw ++ (spaces ++ tail)) raw.length with
    | none => rfl
    | some part =>
      rw [taken_some, taken_some]
      by_cases hname : trim part = []
      · rw [if_pos hname, if_pos hname]
      rw [if_neg hname, if_neg hname]
      have hnamed : Named before text gap raw spaces tail := ⟨hlaid, part, hpart, hname⟩
      have hshort := hnamed.length_lt
      cases behind tail with
      | flat htail => rw [readAfter_flat htail, readAfter_flat htail, ih _ _ more (by omega) (by omega)]
      | @dotted suffix rest hsuffix hends =>
        rw [length_cons, length_append] at hshort
        rw [readAfter_dotted hsuffix hends, readAfter_dotted hsuffix hends,
          ih _ rest more (by omega) (by omega)]
      | unclosed hopen => rw [readAfter_unclosed hopen, readAfter_unclosed hopen]
      | @group inner rest hclose =>
        rw [length_cons, length_append, length_cons] at hshort
        rw [readAfter_group hclose, readAfter_group hclose, ih _ rest more (by omega) (by omega)]
        cases hcut : cut (before ++ (gap ++ (raw ++ spaces)) ++ ['(']) (inner ++ ')' :: rest) inner.length with
        | none => rfl
        | some sub =>
          have hle := length_cut_le hcut
          have hin := ih [] sub more (by omega) (by omega)
          rw [nil_append, length_nil] at hin
          rw [taken_some, taken_some, hin]

end FraiseQL.Rest
