import FraiseQL.SelectScan

/-! The `select` parser against what `select` is. A list of entries is read right when it is made of one-byte characters
and never when it is not: the first name with a longer character in it is cut short. -/

namespace FraiseQL.Rest

open RustText Outcome List Nat

/-! ### Lists among texts -/

theorem not_isGap_of_inHead {c : Char} (h : inHead c = true) : ¬ isGap c = true := by
  intro hgap
  have hin := of_decide_eq_true h
  rcases Bool.or_eq_true _ _ ▸ hgap with hcomma | hspace
  · rw [of_decide_eq_true hcomma] at hin
    exact hin (by decide)
  · rw [of_decide_eq_true hspace] at hin
    exact hin (by decide)

variable {text : List Char} {entries : List SelectEntry}

/-- A list is a gap, or a gap and a text that a name begins. -/
theorem IsList.begins (h : IsList text entries) :
    ∃ gap core, text = gap ++ core ∧ (∀ c ∈ gap, isGap c = true) ∧ ∀ c ∈ core.head?, inHead c = true := by
  have hfirst : ∀ {name : List Char} (rest : List Char), IsName name →
      ∀ c ∈ (name ++ rest).head?, inHead c = true := by
    intro name rest hname c hc
    rw [head?_append_of_ne_nil _ hname.nonempty] at hc
    exact (hname.plain c (mem_of_mem_head? hc)).1
  cases h with
  | done hgap => exact ⟨text, [], (append_nil text).symm, hgap, nofun⟩
  | field hgap hname => exact ⟨_, _, rfl, hgap, hfirst _ hname⟩
  | count hgap hname => exact ⟨_, _, rfl, hgap, hfirst _ hname⟩
  | embedded hgap hhead => exact ⟨_, _, rfl, hgap, hfirst _ hhead.isName⟩

variable {spaces tail : List Char}

/-- Behind some of its gap a list goes on with a gap or a name, and not with what follows a name. -/
theorem IsList.goes_on (h : IsList text entries)
    (hspaces : ∀ c ∈ spaces, c = ' ') (hpre : spaces ++ tail <+: text) : ∀ c ∈ tail.head?, c ≠ '.' ∧ c ≠ '(' := by
  intro c hc
  obtain ⟨gap, core, rfl, hgap, hcore⟩ := h.begins
  obtain ⟨rest, hrest⟩ := hpre
  obtain ⟨more, rfl⟩ : ∃ more, tail = c :: more := by
    cases tail with
    | nil => cases hc
    | cons d more =>
      cases hc
      exact ⟨more, rfl⟩
  have hkind : isGap c = true ∨ inHead c = true := by
    rw [append_assoc] at hrest
    rcases append_eq_append_iff.mp hrest with ⟨as, rfl, has⟩ | ⟨bs, rfl, hbs⟩
    · cases as with
      | nil =>
        rw [nil_append] at has
        exact .inr (hcore c (by rw [← has]; rfl))
      | cons a as =>
        obtain ⟨rfl, -⟩ := List.cons.inj has
        exact .inl (hgap c (mem_append_right _ mem_cons_self))
    · cases bs with
      | nil => exact .inr (hcore c (by rw [hbs]; rfl))
      | cons b bs =>
        have hspace := isGap_of_space hspaces b (mem_append_right _ mem_cons_self)
        exact absurd hspace (not_isGap_of_inHead (hcore b (by rw [hbs]; rfl)))
  constructor <;>
  · rintro rfl
    revert hkind
    decide

theorem closingParen_append {depth n : Nat} {cs : List Char} (h : closingParen depth cs = some n) (more : List Char) :
    closingParen depth (cs ++ more) = some n := by
  induction cs generalizing depth n with
  | nil => cases h
  | cons c cs ih =>
    have hlater : ∀ {d : Nat}, (closingParen d cs).map (· + 1) = some n →
        (closingParen d (cs ++ more)).map (· + 1) = some n := by
      intro d hd
      obtain ⟨m, hm, rfl⟩ := Option.map_eq_some_iff.mp hd
      rw [ih hm]
      rfl
    rw [closingParen] at h
    rw [cons_append, closingParen]
    split at h
    · rename_i hopen
      rw [if_pos hopen]
      exact hlater h
    · rename_i hopen
      rw [if_neg hopen]
      split at h
      · rename_i hclose
        rw [if_pos hclose]
        split at h
        · rename_i hdepth
          rw [if_pos hdepth, h]
        · rename_i hdepth
          rw [if_neg hdepth]
          exact hlater h
      · rename_i hclose
        rw [if_neg hclose]
        exact hlater h

/-- Text without parentheses is passed over. -/
theorem closingParen_plain {cs : List Char} (h : ∀ c ∈ cs, c ≠ '(' ∧ c ≠ ')') (depth : Nat) (more : List Char) :
    closingParen depth (cs ++ more) = (closingParen depth more).map (· + cs.length) := by
  induction cs with
  | nil => simp
  | cons c cs ih =>
    obtain ⟨hopen, hclose⟩ := h c mem_cons_self
    rw [cons_append, closingParen, if_neg hopen, if_neg hclose, ih fun d hd => h d (mem_cons_of_mem _ hd),
      Option.map_map]
    rfl

variable {gap : List Char}

theorem not_paren_of_isGap (h : ∀ c ∈ gap, isGap c = true) : ∀ c ∈ gap, c ≠ '(' ∧ c ≠ ')' := by
  intro c hc
  constructor <;>
  · rintro rfl
    exact absurd (h _ hc) (by decide)

variable {name : List Char}

theorem IsName.not_paren (h : IsName name) : ∀ c ∈ name, c ≠ '(' ∧ c ≠ ')' := by
  intro c hc
  refine ⟨?_, (h.plain c hc).2⟩
  rintro rfl
  exact absurd (h.plain _ hc).1 (by decide)

/-- Parentheses are balanced in a list. -/
theorem IsList.balanced (h : IsList text entries) (depth : Nat) (more : List Char) :
    closingParen (depth + 1) (text ++ more) = (closingParen (depth + 1) more).map (· + text.length) := by
  induction h generalizing depth more with
  | done hgap => exact closingParen_plain (not_paren_of_isGap hgap) _ more
  | field hgap hname _ _ ih =>
    rw [append_assoc, append_assoc, closingParen_plain (not_paren_of_isGap hgap),
      closingParen_plain hname.not_paren, ih, Option.map_map, Option.map_map]
    congr 1
    funext n
    simp only [Function.comp_apply, length_append]
    omega
  | @count gap spaces rest name entries hgap hname hspaces _ _ ih =>
    have hsuffix : ∀ c ∈ '.' :: "count".toList, c ≠ '(' ∧ c ≠ ')' := by simp
    have hregroup : gap ++ (name.toList ++ (spaces ++ '.' :: ("count".toList ++ rest))) ++ more =
        gap ++ (name.toList ++ (spaces ++ ('.' :: "count".toList ++ (rest ++ more)))) := by simp
    rw [hregroup, closingParen_plain (not_paren_of_isGap hgap), closingParen_plain hname.not_paren,
      closingParen_plain (not_paren_of_isGap (isGap_of_space hspaces)), closingParen_plain hsuffix, ih]
    simp only [Option.map_map]
    congr 1
    funext n
    simp only [Function.comp_apply, length_append, length_cons]
    omega
  | @embedded gap spaces inner rest rename relationship fields entries hgap hhead hspaces _ _ _ ihinner ih =>
    have hregroup : gap ++ (headText rename relationship ++ (spaces ++ '(' :: (inner ++ ')' :: rest))) ++ more =
        gap ++ (headText rename relationship ++ (spaces ++ '(' :: (inner ++ ')' :: (rest ++ more)))) := by simp
    have hclose : closingParen (depth + 2) (')' :: (rest ++ more)) =
        (closingParen (depth + 1) (rest ++ more)).map (· + 1) := by
      rw [closingParen, if_neg (by decide), if_pos rfl, if_neg (by omega)]
      rfl
    rw [hregroup, closingParen_plain (not_paren_of_isGap hgap), closingParen_plain hhead.isName.not_paren,
      closingParen_plain (not_paren_of_isGap (isGap_of_space hspaces)), closingParen, if_pos rfl, ihinner, hclose, ih]
    simp only [Option.map_map]
    congr 1
    funext n
    simp only [Function.comp_apply, length_append, length_cons]
    omega

variable {part : List Char}

theorem IsList.unclosed (h : IsList text entries) (hpre : part <+: text) : closingParen 1 part = none := by
  obtain ⟨rest, rfl⟩ := hpre
  have hwhole := h.balanced 0 []
  rw [append_nil] at hwhole
  cases hpart : closingParen 1 part with
  | none => rfl
  | some n =>
    rw [closingParen_append hpart rest] at hwhole
    cases hwhole

/-- A list in parentheses ends at the one that closes. -/
theorem IsList.closed (h : IsList text entries) (more : List Char) :
    closingParen 1 (text ++ ')' :: more) = some text.length := by
  rw [h.balanced 0, closingParen, if_neg (by decide), if_pos rfl, if_pos (le_refl 1)]
  exact congrArg some (zero_add _)

/-- A head that is taken apart is what it was put together from. -/
theorem splitHead_headText {rename : Option String} {relationship : String} (h : IsHead rename relationship) :
    splitHead (headText rename relationship) = (rename, relationship) := by
  cases rename with
  | none =>
    rw [splitHead, headText, Option.elim, nil_append, splitOnce_singleton_eq_none.mpr h.2]
    simp
  | some rename =>
    have hsplit : RustText.splitOnce [':'] (rename.toList ++ [':'] ++ relationship.toList) =
        some (rename.toList, relationship.toList) :=
      splitOnce_singleton.mpr ⟨append_assoc _ _ _, h.2.1⟩
    rw [splitHead, headText, Option.elim, hsplit]
    simp

theorem headText_splitHead (name : List Char) : headText (splitHead name).1 (splitHead name).2 = name := by
  rw [splitHead]
  cases hsplit : RustText.splitOnce [':'] name with
  | none => simp [headText]
  | some parts =>
    obtain ⟨rename, relationship⟩ := parts
    simp [headText, (splitOnce_singleton.mp hsplit).1]

/-! ### Lists of one-byte characters are read right -/

/-- The parser passes over a gap by itself. -/
theorem read_gap (hgap : ∀ c ∈ gap, isGap c = true) (fuel : Nat) (before text : List Char) :
    readSelectEntries (fuel + 1) (before ++ (gap ++ text)) before.length =
      readSelectEntries (fuel + 1) (before ++ gap ++ text) (before ++ gap).length := by
  obtain ⟨gap', raw, spaces, tail, h⟩ := exists_laid text
  have hlaid : Laid (gap ++ text) (gap ++ gap') raw spaces tail :=
    ⟨by rw [h.text_eq, append_assoc], forall_mem_append.mpr ⟨hgap, h.gapAll⟩, h.gapEnds, h.rawAll, h.rawEnds,
      h.spacesAll, h.spacesEnd⟩
  rw [read_laid hlaid, read_laid h]
  simp only [append_assoc]

/-- A name with its gap before it and something else behind it. -/
theorem laid_name (hgap : ∀ c ∈ gap, isGap c = true) (hne : name ≠ [])
    (hplain : ∀ c ∈ name, inHead c ∧ c ≠ ')') (hspaces : ∀ c ∈ spaces, c = ' ')
    (hends : ∀ c ∈ (spaces ++ tail).head?, ¬ inHead c = true) (htail : ∀ c ∈ tail.head?, c ≠ ' ') :
    Laid (gap ++ (name ++ (spaces ++ tail))) gap name spaces tail := by
  refine ⟨rfl, hgap, ?_, fun c hc => (hplain c hc).1, hends, hspaces, htail⟩
  intro c hc
  rw [head?_append_of_ne_nil _ hne] at hc
  exact not_isGap_of_inHead (hplain c (mem_of_mem_head? hc)).1

theorem exists_spaces (text : List Char) : ∃ spaces tail, text = spaces ++ tail ∧ (∀ c ∈ spaces, c = ' ') ∧
    ∀ c ∈ tail.head?, c ≠ ' ' :=
  ⟨text.takeWhile fun c => c = ' ', text.dropWhile fun c => c = ' ', takeWhile_append_dropWhile.symm,
    fun c hc => by simpa using mem_takeWhile_imp hc,
    fun c hc => by simpa using head?_dropWhile_neg (p := fun c => c = ' ') _ c hc⟩

/-- Within one-byte characters the parser cuts out what it means to. -/
theorem cut_ascii {passed : List Char} (hpassed : Ascii passed) (hpart : Ascii part) (rest : List Char) :
    cut passed (part ++ rest) part.length = some part := sliceBytes_ascii hpassed hpart rest

variable {rest : List Char}

theorem not_inHead_of_ends (h : Ends rest) : ∀ c ∈ rest.head?, ¬ inHead c = true :=
  fun c hc hin => not_isGap_of_inHead hin (h c hc)

theorem not_inSuffix_of_ends (h : Ends rest) : ∀ c ∈ rest.head?, ¬ inSuffix c = true := by
  intro c hc hin
  have hnot := of_decide_eq_true hin
  rcases Bool.or_eq_true _ _ ▸ h c hc with hcomma | hspace
  · rw [of_decide_eq_true hcomma] at hnot
    exact hnot (by decide)
  · rw [of_decide_eq_true hspace] at hnot
    exact hnot (by decide)

/-- Spaces, a dot and a parenthesis are not parts of names. -/
theorem not_inHead_of_marked {more : List Char} {mark : Char} (hspaces : ∀ c ∈ spaces, c = ' ')
    (hmark : mark = '.' ∨ mark = '(') : ∀ c ∈ (spaces ++ mark :: more).head?, ¬ inHead c = true := by
  intro c hc
  cases spaces with
  | nil =>
    cases hc
    rcases hmark with rfl | rfl <;> decide
  | cons d spaces =>
    have hspace := hspaces d mem_cons_self
    cases hc
    rw [hspace]
    decide

theorem ascii_of_space (h : ∀ c ∈ spaces, c = ' ') : Ascii spaces := by
  intro c hc
  rw [h c hc]
  decide

theorem ascii_of_gap (h : ∀ c ∈ gap, isGap c = true) : Ascii gap := by
  intro c hc
  rcases Bool.or_eq_true _ _ ▸ h c hc with hcomma | hspace
  · rw [of_decide_eq_true hcomma]
    decide
  · rw [of_decide_eq_true hspace]
    decide

section Behind

variable {before gap name : List Char} (hbefore : Ascii before) (hgap : ∀ c ∈ gap, isGap c = true) (hname : IsName name)
  (hascii : Ascii name)

include hbefore hgap hname hascii

/-- A name of one-byte characters that no suffix and no list follows is read as a field. -/
theorem read_field {rest : List Char} (hends : ∀ c ∈ rest.head?, ¬ inHead c = true)
    (hgoes : ∀ spaces tail, rest = spaces ++ tail → (∀ c ∈ spaces, c = ' ') → ∀ c ∈ tail.head?, c ≠ '.' ∧ c ≠ '(')
    (fuel : Nat) :
    readSelectEntries (fuel + 2) (before ++ (gap ++ (name ++ rest))) before.length =
      readSelectEntries (fuel + 1) (before ++ gap ++ name ++ rest) (before ++ gap ++ name).length >>= fun entries =>
        pure (.field (String.ofList name) :: entries) := by
  obtain ⟨spaces, tail, rfl, hspaces, htail⟩ := exists_spaces rest
  have hlaid := laid_name hgap hname.nonempty hname.plain hspaces hends htail
  have hcut := cut_ascii (ascii_append.mpr ⟨hbefore, ascii_of_gap hgap⟩) hascii (spaces ++ tail)
  have hskip := read_gap (isGap_of_space hspaces) fuel (before ++ gap ++ name) tail
  rw [read_named hlaid hcut (hname.trim_eq.symm ▸ hname.nonempty), readAfter_flat (hgoes _ _ rfl hspaces),
    hname.trim_eq, hskip]
  simp only [append_assoc]

/-- Behind a name of one-byte characters the parser reads on at a dot or a parenthesis. -/
theorem read_marked {spaces more : List Char} {mark : Char} (hspaces : ∀ c ∈ spaces, c = ' ')
    (hmark : mark = '.' ∨ mark = '(') (fuel : Nat) :
    readSelectEntries (fuel + 1) (before ++ (gap ++ (name ++ (spaces ++ mark :: more)))) before.length =
      readAfter fuel (before ++ (gap ++ (name ++ spaces)) ++ mark :: more) (before ++ (gap ++ (name ++ spaces))).length
        name := by
  have hends : ∀ c ∈ (spaces ++ mark :: more).head?, ¬ inHead c = true := not_inHead_of_marked hspaces hmark
  have htail : ∀ c ∈ (mark :: more).head?, c ≠ ' ' := by
    intro c hc
    cases hc
    rcases hmark with rfl | rfl <;> decide
  have hlaid := laid_name hgap hname.nonempty hname.plain hspaces hends htail
  have hcut := cut_ascii (ascii_append.mpr ⟨hbefore, ascii_of_gap hgap⟩) hascii (spaces ++ mark :: more)
  rw [read_named hlaid hcut (hname.trim_eq.symm ▸ hname.nonempty), hname.trim_eq]

end Behind

/-- What is passed with a mark behind a name, and with more behind the mark. -/
theorem ascii_marked {before name : List Char} {mark : Char} (hbefore : Ascii before) (hgap : ∀ c ∈ gap, isGap c = true)
    (hname : Ascii name) (hspaces : ∀ c ∈ spaces, c = ' ') (hmark : mark = '.' ∨ mark = '(') :
    Ascii (before ++ (gap ++ (name ++ spaces)) ++ [mark]) ∧
      ∀ {more}, Ascii more → Ascii (before ++ (gap ++ (name ++ spaces)) ++ mark :: more) := by
  have hone : mark.val ≤ 127 := by rcases hmark with rfl | rfl <;> decide
  simp only [ascii_append, ascii_cons]
  have hpassed := And.intro hbefore (And.intro (ascii_of_gap hgap) (And.intro hname (ascii_of_space hspaces)))
  exact ⟨⟨hpassed, hone, ascii_nil⟩, fun hmore => ⟨hpassed, hone, hmore⟩⟩

theorem inSuffix_count : ∀ c ∈ "count".toList, inSuffix c = true := all_eq_true.mp (by decide)

theorem ascii_count : Ascii "count".toList := by decide

/-- A list of one-byte characters is read as its entries, wherever it stands behind such characters. -/
theorem read_list (h : IsList text entries) :
    ∀ (before : List Char) (fuel : Nat), Ascii before → Ascii text → text.length < fuel →
      readSelectEntries fuel (before ++ text) before.length = .ok entries := by
  induction h with
  | done hgap =>
    intro before fuel _ _ hfuel
    obtain ⟨fuel, rfl⟩ := exists_eq_add_one_of_ne_zero (ne_zero_of_lt hfuel)
    exact read_ended hgap fuel before
  | @field gap rest name entries hgap hname hends hrest ih =>
    intro before fuel hbefore htext hfuel
    simp only [ascii_append] at htext
    have hpos := length_pos_of_ne_nil hname.nonempty
    simp only [length_append] at hfuel
    obtain ⟨fuel, rfl⟩ : ∃ n, fuel = n + 2 := ⟨fuel - 2, by omega⟩
    have hpassed : Ascii (before ++ gap ++ name.toList) := by
      simp only [ascii_append]
      exact ⟨⟨hbefore, htext.1⟩, htext.2.1⟩
    rw [read_field hbefore hgap hname htext.2.1 (not_inHead_of_ends hends)
      (fun spaces tail heq hspaces => hrest.goes_on hspaces (heq ▸ prefix_refl _)),
      ih _ (fuel + 1) hpassed htext.2.2 (by omega), String.ofList_toList]
    rfl
  | @count gap spaces rest name entries hgap hname hspaces hends hrest ih =>
    intro before fuel hbefore htext hfuel
    simp only [ascii_append, ascii_cons] at htext
    obtain ⟨-, hnameAscii, -, -, hcount, hrestAscii⟩ := htext
    simp only [length_append, length_cons] at hfuel
    obtain ⟨fuel, rfl⟩ := exists_eq_add_one_of_ne_zero (ne_zero_of_lt hfuel)
    obtain ⟨hdot, hpassed⟩ := ascii_marked hbefore hgap hnameAscii hspaces (.inl rfl)
    rw [read_marked hbefore hgap hname hnameAscii hspaces (.inl rfl),
      readAfter_dotted inSuffix_count (not_inSuffix_of_ends hends), cut_ascii hdot ascii_count, taken_some, if_pos rfl,
      ih _ fuel (hpassed hcount) hrestAscii (by omega), String.ofList_toList]
    rfl
  | @embedded gap spaces inner rest rename relationship fields entries hgap hhead hspaces hinner hends hrest ihinner ih =>
    intro before fuel hbefore htext hfuel
    simp only [ascii_append, ascii_cons] at htext
    obtain ⟨-, hheadAscii, -, -, hinnerAscii, -, hrestAscii⟩ := htext
    simp only [length_append, length_cons] at hfuel
    obtain ⟨fuel, rfl⟩ := exists_eq_add_one_of_ne_zero (ne_zero_of_lt hfuel)
    obtain ⟨hopen, hpassed⟩ := ascii_marked hbefore hgap hheadAscii hspaces (.inr rfl)
    have hfields := ihinner [] fuel ascii_nil hinnerAscii (by omega)
    rw [nil_append, length_nil] at hfields
    rw [read_marked hbefore hgap hhead.isName hheadAscii hspaces (.inr rfl),
      readAfter_group (hinner.closed rest), cut_ascii hopen hinnerAscii, taken_some, hfields,
      splitHead_headText hhead]
    change (readSelectEntries _ _ _ >>= _) = _
    rw [ih _ fuel (hpassed (ascii_append.mpr ⟨hinnerAscii, by decide⟩)) hrestAscii (by omega)]
    rfl

/-! ### Other lists are not -/

/-- The text that an entry names or is headed by. -/
def entryText : SelectEntry → List Char
  | .field name => name.toList
  | .count name => name.toList
  | .embedded relationship rename _ => headText rename relationship

/-- A part of a text from its start is a part of its first piece, or that piece and a part of the rest. -/
theorem prefix_append_or {as bs : List Char} (h : part <+: as ++ bs) :
    part <+: as ∨ ∃ more, part = as ++ more ∧ more <+: bs := by
  obtain ⟨rest, hrest⟩ := h
  rcases append_eq_append_iff.mp hrest with ⟨xs, rfl, -⟩ | ⟨xs, rfl, rfl⟩
  · exact .inl (prefix_append part xs)
  · exact .inr ⟨xs, rfl, prefix_append xs rest⟩

/-- It is a part of each, and the second part is empty where the first is not whole. -/
theorem prefix_append_parts {as bs : List Char} (h : part <+: as ++ bs) :
    ∃ first second, part = first ++ second ∧ first <+: as ∧ second <+: bs ∧ (first = as ∨ second = []) := by
  rcases prefix_append_or h with h | ⟨more, rfl, hmore⟩
  · exact ⟨part, [], (append_nil part).symm, h, nil_prefix, .inr rfl⟩
  · exact ⟨as, more, rfl, prefix_refl as, hmore, .inl rfl⟩

theorem head?_of_isPrefix {c : Char} (h : part <+: text) (hc : c ∈ part.head?) : c ∈ text.head? := by
  obtain ⟨rest, rfl⟩ := h
  cases part with
  | nil => cases hc
  | cons d part => exact hc

theorem taken_eq_ok {α : Type} {part : Option (List Char)} {next : List Char → Selected α} {a : α}
    (h : taken part next = .ok a) : ∃ text, part = some text ∧ next text = .ok a := by
  cases part with
  | none => cases h
  | some text => exact ⟨text, rfl, h⟩

variable {fuel : Nat} {before : List Char} {entry : SelectEntry}

/-- The first entry read is named by what was cut out. -/
theorem entryText_readAfter
    (h : readAfter fuel (before ++ tail) before.length name = .ok (entry :: entries)) : entryText entry = name := by
  cases behind tail with
  | flat htail =>
    rw [readAfter_flat htail, bind_eq_ok] at h
    obtain ⟨_, -, hentry⟩ := h
    cases hentry
    exact String.toList_ofList
  | dotted hsuffix hmore =>
    rw [readAfter_dotted hsuffix hmore] at h
    obtain ⟨word, -, hword⟩ := taken_eq_ok h
    split at hword
    · obtain ⟨_, -, hentry⟩ := bind_eq_ok.mp hword
      cases hentry
      exact String.toList_ofList
    · cases hword
  | unclosed hopen =>
    rw [readAfter_unclosed hopen] at h
    cases h
  | group hclose =>
    rw [readAfter_group hclose] at h
    obtain ⟨_, -, hpart⟩ := taken_eq_ok h
    obtain ⟨_, -, hfields⟩ := bind_eq_ok.mp hpart
    obtain ⟨_, -, hentry⟩ := bind_eq_ok.mp hfields
    cases hentry
    exact headText_splitHead name

/-- Whoever reads an entry of some name from a part of a text that begins with it, has read the whole name, and it is
made of one-byte characters: of longer ones too few bytes are cut out. -/
theorem ascii_of_first (hgap : ∀ c ∈ gap, isGap c = true) (hname : IsName name)
    (hends : ∀ c ∈ rest.head?, ¬ inHead c = true) (hpre : part <+: gap ++ (name ++ rest))
    (hread : readSelectEntries (fuel + 1) (before ++ part) before.length = .ok (entry :: entries))
    (hentry : entryText entry = name) : Ascii name ∧ ∃ more, part = gap ++ (name ++ more) ∧ more <+: rest := by
  have hover : ¬ ∀ c ∈ part, isGap c = true := by
    intro hpart
    rw [read_ended hpart] at hread
    cases hread
  rcases prefix_append_or hpre with hpre | ⟨u, rfl, hu⟩
  · exact absurd (fun c hc => hgap c (hpre.subset hc)) hover
  obtain ⟨raw, more, rfl, hraw, hmore, hwhole⟩ := prefix_append_parts hu
  have hrawNe : raw ≠ [] := by
    rintro rfl
    have hmoreNil : more = [] := hwhole.resolve_left fun heq => hname.nonempty heq.symm
    rw [hmoreNil, append_nil, append_nil] at hover
    exact hover hgap
  have hmoreEnds : ∀ c ∈ more.head?, ¬ inHead c = true := fun c hc => hends c (head?_of_isPrefix hmore hc)
  obtain ⟨spaces, tail, rfl, hspaces, htail⟩ := exists_spaces more
  have hlaid := laid_name hgap hrawNe (fun c hc => hname.plain c (hraw.subset hc)) hspaces hmoreEnds htail
  rw [read_laid hlaid, if_neg fun hnil => hrawNe (append_eq_nil_iff.mp hnil).1] at hread
  obtain ⟨cutOut, hcut, hread⟩ := taken_eq_ok hread
  split at hread
  · cases hread
  rw [entryText_readAfter hread] at hentry
  -- What was cut out has as many bytes as the name read has characters, and the name is all of it that is not blank.
  have hbytes := byteLength_sliceBytes hcut
  have htrimmed := byteLength_le_of_sublist (trimMatches_sublist isWhitespace cutOut)
  have hlonger := length_le_byteLength name
  have hshorter := hraw.length_le
  rw [← trim, hentry] at htrimmed
  have hequal : raw = name := hraw.eq_of_length (by omega)
  exact ⟨byteLength_eq_length_iff.mp (by omega), spaces ++ tail, by rw [hequal], hmore⟩

/-- Whoever reads an entry that is not a field has read the mark behind its name. -/
theorem marked_of_first {more : List Char} {mark : Char}
    (hbefore : Ascii before) (hgap : ∀ c ∈ gap, isGap c = true) (hname : IsName name) (hascii : Ascii name)
    (hspaces : ∀ c ∈ spaces, c = ' ') (hmore : more <+: spaces ++ mark :: rest)
    (hread : readSelectEntries (fuel + 1) (before ++ (gap ++ (name ++ more))) before.length = .ok (entry :: entries))
    (hentry : ∀ name, entry ≠ .field name) : ∃ later, more = spaces ++ mark :: later ∧ later <+: rest := by
  have hflat : ¬ ∀ c ∈ more, c = ' ' := by
    intro hall
    have hends : ∀ c ∈ (more ++ []).head?, ¬ inHead c = true := by
      intro c hc
      rw [append_nil] at hc
      rw [hall c (mem_of_mem_head? hc)]
      decide
    have hnothing : ∀ c ∈ ([] : List Char).head?, c ≠ '.' ∧ c ≠ '(' := nofun
    have hlaid := laid_name hgap hname.nonempty hname.plain hall hends nofun
    have hcut := cut_ascii (ascii_append.mpr ⟨hbefore, ascii_of_gap hgap⟩) hascii (more ++ [])
    rw [append_nil] at hlaid
    rw [read_named hlaid hcut (hname.trim_eq.symm ▸ hname.nonempty), readAfter_flat hnothing,
      bind_eq_ok] at hread
    obtain ⟨_, -, hfield⟩ := hread
    cases hfield
    exact hentry _ rfl
  rcases prefix_append_or hmore with hmore | ⟨v, rfl, hv⟩
  · exact absurd (fun c hc => hspaces c (hmore.subset hc)) hflat
  · rcases prefix_cons_iff.mp hv with rfl | ⟨later, rfl, hlater⟩
    · rw [append_nil] at hflat
      exact absurd hspaces hflat
    · exact ⟨later, rfl, hlater⟩

/-- A list with a longer character in it is never read as its entries, and no part of it is. -/
theorem read_ne_of_longer (h : IsList text entries) :
    ¬ Ascii text → ∀ (before part : List Char) (fuel : Nat), Ascii before → part <+: text → part.length < fuel →
      readSelectEntries fuel (before ++ part) before.length ≠ .ok entries := by
  induction h with
  | done hgap => exact fun htext => absurd (ascii_of_gap hgap) htext
  | @field gap rest name entries hgap hname hends hrest ih =>
    intro htext before part fuel hbefore hpre hfuel hread
    obtain ⟨fuel, rfl⟩ := exists_eq_add_one_of_ne_zero (ne_zero_of_lt hfuel)
    have hgapAscii := ascii_of_gap hgap
    obtain ⟨hnameAscii, more, rfl, hmore⟩ :=
      ascii_of_first hgap hname (not_inHead_of_ends hends) hpre hread rfl
    have hrestNot : ¬ Ascii rest := by
      simp only [ascii_append] at htext
      exact fun hrestAscii => htext ⟨hgapAscii, hnameAscii, hrestAscii⟩
    have hpassed : Ascii (before ++ gap ++ name.toList) := by
      simp only [ascii_append]
      exact ⟨⟨hbefore, hgapAscii⟩, hnameAscii⟩
    have hpos := length_pos_of_ne_nil hname.nonempty
    simp only [length_append] at hfuel
    obtain ⟨fuel, rfl⟩ : ∃ n, fuel = n + 1 := ⟨fuel - 1, by omega⟩
    rw [read_field hbefore hgap hname hnameAscii
      (fun c hc => not_inHead_of_ends hends c (head?_of_isPrefix hmore hc))
      (fun spaces tail heq hspaces => hrest.goes_on hspaces (heq ▸ hmore)), bind_eq_ok] at hread
    obtain ⟨rest', hrest', hentries⟩ := hread
    rw [String.ofList_toList] at hentries
    cases hentries
    exact ih hrestNot _ more (fuel + 1) hpassed hmore (by omega) hrest'
  | @count gap spaces rest name entries hgap hname hspaces hends hrest ih =>
    intro htext before part fuel hbefore hpre hfuel hread
    obtain ⟨fuel, rfl⟩ := exists_eq_add_one_of_ne_zero (ne_zero_of_lt hfuel)
    have hgapAscii := ascii_of_gap hgap
    have hspacesAscii := ascii_of_space hspaces
    obtain ⟨hnameAscii, more, rfl, hmore⟩ := ascii_of_first hgap hname
      (not_inHead_of_marked hspaces (.inl rfl)) hpre hread rfl
    obtain ⟨later, rfl, hlater⟩ := marked_of_first hbefore hgap hname hnameAscii hspaces hmore hread (by rintro _ ⟨⟩)
    obtain ⟨hdot, hpassed⟩ := ascii_marked hbefore hgap hnameAscii hspaces (.inl rfl)
    rw [read_marked hbefore hgap hname hnameAscii hspaces (.inl rfl)] at hread
    obtain ⟨word, rest', rfl, hword, hrest', -⟩ := prefix_append_parts hlater
    rw [readAfter_dotted (fun c hc => inSuffix_count c (hword.subset hc))
        (fun c hc => not_inSuffix_of_ends hends c (head?_of_isPrefix hrest' hc)),
      cut_ascii hdot fun c hc => ascii_count c (hword.subset hc), taken_some] at hread
    split at hread
    · rename_i hcount
      rw [hcount] at hfuel hread
      have hrestNot : ¬ Ascii rest := by
        simp only [ascii_append, ascii_cons] at htext
        exact fun hrestAscii => htext ⟨hgapAscii, hnameAscii, hspacesAscii, by decide, ascii_count, hrestAscii⟩
      simp only [length_append, length_cons] at hfuel
      obtain ⟨entries', hentries', heq⟩ := bind_eq_ok.mp hread
      rw [String.ofList_toList] at heq
      cases heq
      exact ih hrestNot _ rest' fuel (hpassed ascii_count) hrest' (by omega) hentries'
    · cases hread
  | @embedded gap spaces inner rest rename relationship fields entries hgap hhead hspaces hinner hends hrest ihinner ih =>
    intro htext before part fuel hbefore hpre hfuel hread
    obtain ⟨fuel, rfl⟩ := exists_eq_add_one_of_ne_zero (ne_zero_of_lt hfuel)
    have hgapAscii := ascii_of_gap hgap
    have hspacesAscii := ascii_of_space hspaces
    obtain ⟨hheadAscii, more, rfl, hmore⟩ := ascii_of_first hgap hhead.isName
      (not_inHead_of_marked hspaces (.inr rfl)) hpre hread rfl
    obtain ⟨later, rfl, hlater⟩ :=
      marked_of_first hbefore hgap hhead.isName hheadAscii hspaces hmore hread (by rintro _ ⟨⟩)
    obtain ⟨hopen, hpassed⟩ := ascii_marked hbefore hgap hheadAscii hspaces (.inr rfl)
    rw [read_marked hbefore hgap hhead.isName hheadAscii hspaces (.inr rfl)] at hread
    rcases prefix_append_or hlater with hlater | ⟨closed, rfl, hclosed⟩
    · rw [readAfter_unclosed (hinner.unclosed hlater)] at hread
      cases hread
    rcases prefix_cons_iff.mp hclosed with rfl | ⟨rest', rfl, hrest'⟩
    · rw [append_nil, readAfter_unclosed (hinner.unclosed (prefix_refl inner))] at hread
      cases hread
    simp only [length_append, length_cons] at hfuel
    rw [readAfter_group (hinner.closed rest')] at hread
    obtain ⟨sub, hsub, hread⟩ := taken_eq_ok hread
    obtain ⟨fields', hfields', hread⟩ := bind_eq_ok.mp hread
    obtain ⟨entries', hentries', heq⟩ := bind_eq_ok.mp hread
    rw [splitHead_headText hhead] at heq
    cases heq
    by_cases hinnerAscii : Ascii inner
    · have hrestNot : ¬ Ascii rest := by
        simp only [ascii_append, ascii_cons] at htext
        exact fun hrestAscii => htext
          ⟨hgapAscii, hheadAscii, hspacesAscii, by decide, hinnerAscii, by decide, hrestAscii⟩
      have hinside : Ascii (inner ++ [')']) := ascii_append.mpr ⟨hinnerAscii, by decide⟩
      exact ih hrestNot _ rest' fuel (hpassed hinside) hrest' (by omega) hentries'
    · obtain ⟨hpart, hbytes⟩ := sliceBytes_of_ascii hopen hsub
      have hlonger := length_lt_byteLength hinnerAscii
      have hsubLe := length_le_byteLength sub
      have hprefix : sub <+: inner := by
        rcases prefix_append_or hpart with hpart | ⟨more, rfl, -⟩
        · exact hpart
        · rw [byteLength_append] at hbytes
          omega
      exact ihinner hinnerAscii [] sub fuel ascii_nil hprefix (by omega) hfields'

/-! ### The parser -/

/-- Entries of a list of one-byte characters are printed in such characters. -/
theorem IsList.ascii_printed (h : IsList text entries) :
    Ascii text → Ascii (printEntries entries) ∧ Ascii (printMore entries) := by
  have hboth : ∀ {entry : SelectEntry} {entries : List SelectEntry}, Ascii entry.print → Ascii (printMore entries) →
      Ascii (printEntries (entry :: entries)) ∧ Ascii (printMore (entry :: entries)) := by
    intro entry entries hentry hmore
    have hprinted := ascii_append.mpr ⟨hentry, hmore⟩
    exact ⟨hprinted, ascii_cons.mpr ⟨by decide, hprinted⟩⟩
  induction h with
  | done => exact fun _ => ⟨ascii_nil, ascii_nil⟩
  | field _ _ _ _ ih =>
    intro htext
    simp only [ascii_append] at htext
    exact hboth htext.2.1 (ih htext.2.2).2
  | count _ _ _ _ _ ih =>
    intro htext
    simp only [ascii_append, ascii_cons] at htext
    exact hboth (ascii_append.mpr ⟨htext.2.1, by decide⟩) (ih htext.2.2.2.2.2).2
  | embedded _ _ _ _ _ _ ihinner ih =>
    intro htext
    simp only [ascii_append, ascii_cons] at htext
    obtain ⟨-, hhead, -, -, hinner, -, hrest⟩ := htext
    refine hboth (ascii_append.mpr ⟨hhead, ascii_cons.mpr ⟨by decide, ?_⟩⟩) (ih hrest).2
    exact ascii_append.mpr ⟨(ihinner hinner).1, by decide⟩

/-- What is asked of the parser on a text: that it ends, and cuts between characters only, that it succeeds on lists and
on nothing else, with their entries in order, and that printed entries are read as the same. -/
structure Exact (input : String) : Prop where
  ends : ∀ fuel, input.toList.length < fuel → readSelectEntries fuel input.toList 0 = parseSelectEntries input
  total : parseSelectEntries input ≠ .error .panicked
  accepts : ∀ entries, parseSelectEntries input = .ok entries ↔ IsList input.toList entries
  again : ∀ entries, parseSelectEntries input = .ok entries →
    parseSelectEntries (String.ofList (printEntries entries)) = .ok entries

theorem parse_ends (input : String) (fuel : Nat) (hfuel : input.toList.length < fuel) :
    readSelectEntries fuel input.toList 0 = parseSelectEntries input :=
  read_fuel (input.toList.length + 1) [] input.toList fuel (lt_succ_self _) hfuel

theorem parse_list (h : IsList text entries) (htext : Ascii text) :
    parseSelectEntries (String.ofList text) = .ok entries := by
  rw [parseSelectEntries, String.toList_ofList]
  exact read_list h [] _ ascii_nil htext (lt_succ_self _)

theorem ascii_of_parse {input : String} (h : IsList input.toList entries)
    (hparse : parseSelectEntries input = .ok entries) : Ascii input.toList := by
  by_contra hlonger
  exact read_ne_of_longer h hlonger [] input.toList _ ascii_nil (prefix_refl _) (lt_succ_self _) hparse

/-- Nothing needs to stand between a list and the next name, and a name may have a closing parenthesis in it. -/
example : verdict (parseSelectEntries "a(b)c)") = some .accepted := rfl

end FraiseQL.Rest
