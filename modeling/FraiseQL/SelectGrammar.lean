import FraiseQL.RestSelect

/-! What a `select` parameter is: entries with commas or spaces between them, each a name, a name with `.count`, or a
name, possibly behind another and a colon, with a list in parentheses. -/

namespace FraiseQL.Rest

open RustText List

/-- What stands between entries. -/
def isGap (c : Char) : Bool := c = ',' || c = ' '

/-- The parser reads a name until one of these. -/
def inHead (c : Char) : Bool := c ∉ ['(', ',', '.', ' ']

/-- A name has no parentheses, nothing that ends it, and no white space at its edges. -/
structure IsName (name : List Char) : Prop where
  nonempty : name ≠ []
  plain : ∀ c ∈ name, inHead c ∧ c ≠ ')'
  first : ∀ c ∈ name.head?, ¬ isWhitespace c = true
  last : ∀ c ∈ name.getLast?, ¬ isWhitespace c = true

/-- The text before a list: the relationship's name, behind the name it is embedded under. -/
def headText (rename : Option String) (relationship : String) : List Char :=
  (rename.elim [] fun rename => rename.toList ++ [':']) ++ relationship.toList

/-- A head that names a relationship, or renames it; the first colon is the one that renames. -/
def IsHead : Option String → String → Prop
  | none, relationship => IsName relationship.toList ∧ ':' ∉ relationship.toList
  | some rename, relationship => IsName rename.toList ∧ ':' ∉ rename.toList ∧ IsName relationship.toList

/-- An entry ends where the text does, or where the next gap begins. -/
def Ends (rest : List Char) : Prop := ∀ c ∈ rest.head?, isGap c = true

/-- The lists of entries that `select` is written in, each with the entries it names. -/
inductive IsList : List Char → List SelectEntry → Prop
  | done {gap : List Char} (hgap : ∀ c ∈ gap, isGap c = true) : IsList gap []
  | field {gap rest : List Char} {name : String} {entries : List SelectEntry} (hgap : ∀ c ∈ gap, isGap c = true)
      (hname : IsName name.toList) (hends : Ends rest) (hrest : IsList rest entries) :
      IsList (gap ++ (name.toList ++ rest)) (.field name :: entries)
  | count {gap spaces rest : List Char} {name : String} {entries : List SelectEntry}
      (hgap : ∀ c ∈ gap, isGap c = true) (hname : IsName name.toList) (hspaces : ∀ c ∈ spaces, c = ' ')
      (hends : Ends rest) (hrest : IsList rest entries) :
      IsList (gap ++ (name.toList ++ (spaces ++ '.' :: ("count".toList ++ rest)))) (.count name :: entries)
  | embedded {gap spaces inner rest : List Char} {rename : Option String} {relationship : String}
      {fields entries : List SelectEntry} (hgap : ∀ c ∈ gap, isGap c = true) (hhead : IsHead rename relationship)
      (hspaces : ∀ c ∈ spaces, c = ' ') (hinner : IsList inner fields) (hends : Ends rest)
      (hrest : IsList rest entries) :
      IsList (gap ++ (headText rename relationship ++ (spaces ++ '(' :: (inner ++ ')' :: rest))))
        (.embedded relationship rename fields :: entries)

mutual

/-- An entry as it is written. -/
def SelectEntry.print : SelectEntry → List Char
  | .field name => name.toList
  | .count name => name.toList ++ '.' :: "count".toList
  | .embedded relationship rename fields => headText rename relationship ++ '(' :: (printEntries fields ++ [')'])

/-- Entries as they are written, with a comma before all but the first. -/
def printEntries : List SelectEntry → List Char
  | [] => []
  | entry :: entries => entry.print ++ printMore entries

def printMore : List SelectEntry → List Char
  | [] => []
  | entry :: entries => ',' :: (entry.print ++ printMore entries)

end

/-! ### Lists -/

theorem isGap_of_space {spaces : List Char} (h : ∀ c ∈ spaces, c = ' ') : ∀ c ∈ spaces, isGap c = true := by
  intro c hc
  rw [h c hc]
  rfl

/-- More of a gap may stand before a list. -/
theorem IsList.behind {text : List Char} {entries : List SelectEntry} (h : IsList text entries) {gap : List Char}
    (hgap : ∀ c ∈ gap, isGap c = true) : IsList (gap ++ text) entries := by
  cases h with
  | done h => exact .done (forall_mem_append.mpr ⟨hgap, h⟩)
  | field h hname hends hrest =>
    rw [← append_assoc]
    exact .field (forall_mem_append.mpr ⟨hgap, h⟩) hname hends hrest
  | count h hname hspaces hends hrest =>
    rw [← append_assoc]
    exact .count (forall_mem_append.mpr ⟨hgap, h⟩) hname hspaces hends hrest
  | embedded h hhead hspaces hinner hends hrest =>
    rw [← append_assoc]
    exact .embedded (forall_mem_append.mpr ⟨hgap, h⟩) hhead hspaces hinner hends hrest

variable {rename : Option String} {relationship : String}

/-- A head is a name as a whole. -/
theorem IsHead.isName (h : IsHead rename relationship) : IsName (headText rename relationship) := by
  cases rename with
  | none => exact h.1
  | some rename =>
    obtain ⟨hname, -, hrelationship⟩ := h
    constructor
    · exact fun hnil => hrelationship.nonempty (append_eq_nil_iff.mp hnil).2
    · intro c hc
      rcases mem_append.mp hc with hc | hc
      · rcases mem_append.mp hc with hc | hc
        · exact hname.plain c hc
        · rw [mem_singleton.mp hc]
          decide
      · exact hrelationship.plain c hc
    · intro c hc
      rw [headText, Option.elim, append_assoc, head?_append_of_ne_nil _ hname.nonempty] at hc
      exact hname.first c hc
    · intro c hc
      rw [headText, getLast?_append_of_ne_nil _ hrelationship.nonempty] at hc
      exact hrelationship.last c hc

theorem IsName.trim_eq {name : List Char} (h : IsName name) : trim name = name := trimMatches_eq_self h.first h.last

theorem IsList.printed {text : List Char} {entries : List SelectEntry} (h : IsList text entries) :
    IsList (printEntries entries) entries ∧ IsList (printMore entries) entries ∧ Ends (printMore entries) := by
  have hcomma : ∀ c ∈ [','], isGap c = true := all_eq_true.mp (by decide)
  have hends : ∀ entries, Ends (printMore entries) := by
    intro entries
    cases entries with
    | nil => nofun
    | cons => exact fun c hc => hcomma c (by simpa [printMore, eq_comm] using hc)
  have hboth : ∀ {text : List Char} {entry : SelectEntry} {entries : List SelectEntry},
      text = printEntries (entry :: entries) → IsList text (entry :: entries) →
      IsList (printEntries (entry :: entries)) (entry :: entries) ∧
        IsList (printMore (entry :: entries)) (entry :: entries) ∧ Ends (printMore (entry :: entries)) := by
    intro text entry entries htext hlist
    rw [htext] at hlist
    exact ⟨hlist, hlist.behind hcomma, hends _⟩
  have hnone : ∀ c ∈ ([] : List Char), isGap c = true := nofun
  have hspaces : ∀ c ∈ ([] : List Char), c = ' ' := nofun
  induction h with
  | done => exact ⟨.done nofun, .done nofun, nofun⟩
  | field _ hname _ _ ih => exact hboth rfl (.field hnone hname ih.2.2 ih.2.1)
  | count _ hname _ _ _ ih =>
    have hlist := IsList.count hnone hname hspaces ih.2.2 ih.2.1
    exact hboth (by simp [printEntries, SelectEntry.print]) hlist
  | embedded _ hhead _ _ _ _ ihinner ih =>
    have hlist := IsList.embedded hnone hhead hspaces ihinner.1 ih.2.2 ih.2.1
    exact hboth (by simp [printEntries, SelectEntry.print]) hlist

end FraiseQL.Rest
