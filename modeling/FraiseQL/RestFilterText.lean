import FraiseQL.RestSelect
import FraiseQL.RowFilter

/-! What the filter parameters of a REST request say, read as formulas: plain fields, fields with an operator in
brackets, a filter in JSON, and groups. A parameter that is not understood as a whole is not read at all. The parser of
groups (`parse_logical_group`) writes every group without a negation as the JSON of its formula. -/

namespace FraiseQL.Rest

open RustText Connective List Option

/-- The connective a parameter or a nested group is named after. -/
def connective? (word : String) : Option Connective :=
  match word with
  | "and" => some .and
  | "or" => some .or
  | "not" => some .not
  | _ => none

theorem connective?_isSome {word : String} :
    (connective? word).isSome ↔ word = "and" ∨ word = "or" ∨ word = "not" := by
  unfold connective?
  split
  · simp
  · simp
  · simp
  · rename_i hand hor hnot
    exact ⟨nofun, fun h => (h.elim hand fun h => h.elim hor hnot).elim⟩

theorem key_of_connective? {word : String} {c : Connective} (h : connective? word = some c) : "_" ++ word = c.key := by
  unfold connective? at h
  split at h
  all_goals
    cases h
    try rfl

/-- A text in parentheses. -/
def enclosed (text : List Char) : Bool := text.head? = some '(' && text.getLast? = some ')'

/-- The texts between the commas that stand outside parentheses; none where the parentheses do not match. -/
def splitPieces : Nat → List Char → Option (List Char × List (List Char))
  | 0, [] => some ([], [])
  | _ + 1, [] => none
  | depth, c :: cs =>
    let extend := Option.map fun pieces : List Char × List (List Char) => (c :: pieces.1, pieces.2)
    if c = '(' then extend (splitPieces (depth + 1) cs)
    else if c = ')' then
      match depth with
      | 0 => none
      | depth + 1 => extend (splitPieces depth cs)
    else if c = ',' ∧ depth = 0 then (splitPieces depth cs).map fun pieces => ([], pieces.1 :: pieces.2)
    else extend (splitPieces depth cs)

theorem splitPieces_cons (depth : Nat) (c : Char) (cs : List Char) :
    splitPieces depth (c :: cs) =
      let extend := Option.map fun pieces : List Char × List (List Char) => (c :: pieces.1, pieces.2)
      if c = '(' then extend (splitPieces (depth + 1) cs)
      else if c = ')' then
        match depth with
        | 0 => none
        | depth + 1 => extend (splitPieces depth cs)
      else if c = ',' ∧ depth = 0 then (splitPieces depth cs).map fun pieces => ([], pieces.1 :: pieces.2)
      else extend (splitPieces depth cs) := by
  cases depth <;> rfl

variable (lib : ParamLibrary)

/-- One condition of a group; without brackets it is an equality. -/
def readCondition (name value : List Char) : Option RowFilter :=
  let (field, op) := (parseBracketKey (String.ofList name)).getD (String.ofList name, "eq")
  if RowFilter.isOperator op then some (.condition field op (parseLogicalValue lib (String.ofList value))) else none

/-- One part of a group. -/
def readPiece (nested : List Char → Option (List RowFilter)) (piece : List Char) : Option RowFilter := do
  let (name, value) ← RustText.splitOnce ['='] piece
  match connective? (String.ofList name), enclosed value with
  | some c, true => (nested value).map (.group c)
  | _, _ => readCondition lib name value

/-- The parts of a group, nested less than so many times. -/
def readGroup : Nat → List Char → Option (List RowFilter)
  | 0, _ => none
  | levels + 1, text => do
    let trimmed := trim text
    if enclosed trimmed then
      let (piece, pieces) ← splitPieces 0 (trimmed.drop 1).dropLast
      (((piece :: pieces).map trim).filter (· ≠ [])).mapM (readPiece lib (readGroup levels))
    else none

section Params

variable (t : RestType)

/-- A condition on a field of the type, with its value as the field holds it. -/
def readTyped (field op raw : String) : Option (List RowFilter) :=
  if RowFilter.isOperator op then
    (coerceFieldValue lib (some t) field raw).toOption.map fun value => [.condition field op value]
  else none

def filterEntries (raw : String) : Option (List (String × Json)) := (lib.fromStr raw).toOption.bind Json.asObject?

/-- The filters one parameter stands for. A key with a dot belongs to an embedded resource, unless it names a field of
the type. -/
def readParam (pair : String × String) : Option (List RowFilter) :=
  let (key, raw) := pair
  match parseBracketKey key with
  | some (field, op) =>
    if '.' ∈ key.toList then
      if (t.findFieldByOutputName field).isSome then none else some []
    else readTyped lib t field op raw
  | none =>
    if '.' ∈ key.toList then
      if (t.findFieldByOutputName key).isSome then none else some []
    else if key = "filter" then (filterEntries lib raw).bind RowFilter.readEntries
    else
      match connective? key with
      | some c => (readGroup lib raw.length raw.toList).map fun filters => [.group c filters]
      | none => if key ∈ reservedParams then some [] else readTyped lib t key "eq" raw

def suppliedFilters (pairs : List (String × String)) : Option (List RowFilter) :=
  (pairs.mapM (readParam lib t)).map List.flatten

/-- The fields one parameter names. -/
def paramNames (pair : String × String) : List String :=
  if pair.1 = "filter" then ((filterEntries lib pair.2).map RowFilter.entryNames).getD []
  else ((readParam lib t pair).map RowFilter.allFields).getD []

end Params

/-! ### Groups are written as they read -/

/-- A part of `parse_logical_group`. -/
def parsePart (nested : List Char → String → Except FraiseQLError Json) (part : List Char) :
    Except FraiseQLError (Option Json) :=
  match parseNestedLogical part with
  | some (op, text) => (nested text ("_" ++ op)).map some
  | none =>
    match RustText.splitOnce ['='] part with
    | some (fieldOp, value) =>
      let json := parseLogicalValue lib (String.ofList value)
      match parseBracketKey (String.ofList fieldOp) with
      | some (field, op) => .ok (some (.obj [(field, .obj [(op, json)])]))
      | none => .ok (some (.obj [(String.ofList fieldOp, .obj [("eq", json)])]))
    | none => .ok none

theorem parseLogicalGroup_succ (levels : Nat) (input : List Char) (dslKey : String) :
    parseLogicalGroup lib (levels + 1) input dslKey =
      if (trim input).head? ≠ some '(' ∨ (trim input).getLast? ≠ some ')' then
        validationError ("Logical operator value must be enclosed in parentheses: `" ++ dslKey ++ "=(...)`. Got: `" ++
          String.ofList (trim input) ++ "`")
      else do
        let conditions ← (((splitLogicalParts 0 [] ((trim input).drop 1).dropLast).map trim).filter (· ≠ [])).mapM
          (parsePart lib (parseLogicalGroup lib levels))
        return .obj [(dslKey, .arr (conditions.filterMap id))] := by
  rw [parseLogicalGroup]
  rfl

/-- The parts that the code splits at commas are the pieces, up to blank ones. -/
theorem parts_eq_pieces {depth : Nat} {cs piece : List Char} {pieces : List (List Char)}
    (h : splitPieces depth cs = some (piece, pieces)) (current : List Char) :
    ((splitLogicalParts depth current cs).map trim).filter (· ≠ []) =
      (((current ++ piece) :: pieces).map trim).filter (· ≠ []) := by
  induction cs generalizing depth piece pieces current with
  | nil =>
    cases depth with
    | succ depth => cases h
    | zero =>
      obtain ⟨rfl, rfl⟩ := Prod.mk.inj (some.inj h)
      rw [splitLogicalParts, append_nil]
      cases current with
      | nil => rfl
      | cons c current => rfl
  | cons c cs ih =>
    have hmore : ∀ {depth' : Nat}, (splitPieces depth' cs).map (fun pieces => (c :: pieces.1, pieces.2)) =
        some (piece, pieces) → ((splitLogicalParts depth' (current ++ [c]) cs).map trim).filter (· ≠ []) =
          (((current ++ piece) :: pieces).map trim).filter (· ≠ []) := by
      intro depth' h'
      obtain ⟨⟨piece', pieces'⟩, hrest, heq⟩ := map_eq_some_iff.mp h'
      obtain ⟨rfl, rfl⟩ := Prod.mk.inj heq
      rw [ih hrest (current ++ [c]), append_assoc]
      rfl
    rw [splitPieces_cons] at h
    dsimp only at h
    rw [splitLogicalParts]
    by_cases hopen : c = '('
    · rw [if_pos hopen] at h ⊢
      exact hmore h
    · rw [if_neg hopen] at h ⊢
      by_cases hclose : c = ')'
      · rw [if_pos hclose] at h ⊢
        cases depth with
        | zero => cases h
        | succ depth =>
          have hdepth : ((depth + 1 : Nat) : Int) - 1 = depth := by omega
          rw [hdepth]
          exact hmore h
      · rw [if_neg hclose] at h ⊢
        by_cases hcomma : c = ',' ∧ depth = 0
        · obtain ⟨hc, rfl⟩ := hcomma
          rw [if_pos ⟨hc, rfl⟩] at h
          rw [if_pos ⟨hc, rfl⟩]
          obtain ⟨⟨piece', pieces'⟩, hrest, heq⟩ := map_eq_some_iff.mp h
          obtain ⟨rfl, rfl⟩ := Prod.mk.inj heq
          have htail := ih hrest []
          rw [nil_append] at htail
          rw [append_nil, map_cons, map_cons, filter_cons, filter_cons, htail]
        · rw [if_neg hcomma] at h
          rw [if_neg fun hboth => hcomma ⟨hboth.1, by omega⟩]
          exact hmore h

/-- What stands before the first sign is determined. -/
theorem before_eq {a b rest rest' : List Char} (ha : '=' ∉ a) (hb : '=' ∉ b)
    (h : a ++ '=' :: rest = b ++ '=' :: rest') : a = b := by
  induction a generalizing b with
  | nil =>
    cases b with
    | nil => rfl
    | cons c b =>
      obtain ⟨rfl, -⟩ := cons.inj h
      exact absurd mem_cons_self hb
  | cons c a ih =>
    cases b with
    | nil =>
      obtain ⟨rfl, -⟩ := cons.inj h
      exact absurd mem_cons_self ha
    | cons c' b =>
      rw [cons_append, cons_append] at h
      obtain ⟨rfl, htail⟩ := cons.inj h
      rw [ih (not_mem_of_not_mem_cons ha) (not_mem_of_not_mem_cons hb) htail]

theorem stripStart_eq {op : String} {name value : List Char} (hop : '=' ∉ op.toList) (hname : '=' ∉ name) :
    stripStart (op ++ "=").toList (name ++ '=' :: value) = if String.ofList name = op then some value else none := by
  have htext : (op ++ "=").toList = op.toList ++ ['='] := String.toList_append
  rw [stripStart, htext]
  by_cases heq : String.ofList name = op
  · have hlist : op.toList = name := by rw [← heq, String.toList_ofList]
    have hsplit : name ++ '=' :: value = (name ++ ['=']) ++ value := by simp
    rw [if_pos heq, hlist, hsplit, if_pos (List.isPrefixOf_iff_prefix.mpr (prefix_append _ _)), drop_left]
  · rw [if_neg heq, if_neg]
    intro hstart
    obtain ⟨rest, hrest⟩ := isPrefixOf_iff_prefix.mp hstart
    rw [append_assoc] at hrest
    refine heq ?_
    rw [← before_eq hop hname hrest, String.ofList_toList]

/-- A part is a nested group when it is named after a connective. -/
theorem parseNestedLogical_eq {name value : List Char} (hname : '=' ∉ name) :
    parseNestedLogical (name ++ '=' :: value) =
      if (connective? (String.ofList name)).isSome ∧ enclosed value = true then some (String.ofList name, value)
      else none := by
  have hstep : ∀ op : String, '=' ∉ op.toList →
      ((stripStart (op ++ "=").toList (name ++ '=' :: value)).bind fun rest =>
        if rest.head? = some '(' ∧ rest.getLast? = some ')' then some (op, rest) else none) =
      if String.ofList name = op ∧ enclosed value = true then some (String.ofList name, value) else none := by
    intro op hop
    rw [stripStart_eq hop hname]
    by_cases heq : String.ofList name = op
    · simp [heq, enclosed]
    · simp [heq]
  simp only [parseNestedLogical, findSome?_cons, findSome?_nil, hstep "and" (by decide),
    hstep "or" (by decide), hstep "not" (by decide), connective?_isSome]
  by_cases henclosed : enclosed value = true
  · by_cases hand : String.ofList name = "and"
    · simp [hand, henclosed]
    · by_cases hor : String.ofList name = "or"
      · simp [hor, henclosed]
      · by_cases hnot : String.ofList name = "not"
        · simp [hnot, henclosed]
        · simp [hand, hor, hnot]
  · simp [henclosed]

section Written

open RowFilter

variable {nested : List Char → String → Except FraiseQLError Json} {read : List Char → Option (List RowFilter)}

/-- A part of a group without negations is written as the JSON of its formula, when nested groups are. -/
theorem parsePart_reads {piece : List Char} {f : RowFilter} {written : Option Json}
    (hnested : ∀ text c fs json, c ≠ .not → read text = some fs → allNegationFree fs = true →
      (∀ name ∈ allFields fs, ofKey? name = none) → nested text c.key = .ok json →
        readJson json = some (.group c fs) ∧ fieldNames json = allFields fs)
    (hread : readPiece lib read piece = some f) (hfree : f.negationFree = true)
    (hfields : ∀ name ∈ f.fields, ofKey? name = none)
    (h : parsePart lib nested piece = .ok written) :
    ∃ json, written = some json ∧ readJson json = some f ∧ fieldNames json = f.fields := by
  obtain ⟨⟨name, value⟩, hsplit, hpart⟩ := bind_eq_some_iff.mp hread
  obtain ⟨rfl, hname⟩ := splitOnce_singleton.mp hsplit
  rw [parsePart, parseNestedLogical_eq hname, hsplit] at h
  by_cases hgroup : (connective? (String.ofList name)).isSome ∧ enclosed value = true
  · obtain ⟨c, hc⟩ := isSome_iff_exists.mp hgroup.1
    simp only [hc, hgroup.2] at hpart
    obtain ⟨fs, hfs, rfl⟩ := map_eq_some_iff.mp hpart
    rw [negationFree, Bool.and_eq_true, decide_eq_true_eq] at hfree
    rw [if_pos hgroup] at h
    obtain ⟨json, hjson, rfl⟩ := Outcome.map_eq_ok.mp h
    rw [key_of_connective? hc] at hjson
    obtain ⟨hreads, hnames⟩ := hnested value c fs json hfree.1 hfs hfree.2 hfields hjson
    exact ⟨json, rfl, hreads, hnames⟩
  · rw [if_neg hgroup] at h
    have hcondition : readCondition lib name value = some f := by
      cases hc : connective? (String.ofList name) with
      | none =>
        simp only [hc] at hpart
        exact hpart
      | some c =>
        have hopen : enclosed value = false := by
          rw [hc] at hgroup
          simpa using hgroup
        simp only [hc, hopen] at hpart
        exact hpart
    have hwritten : ∀ {field op : String} {operand : Json}, isOperator op = true → f = .condition field op operand →
        readJson (.obj [(field, .obj [(op, operand)])]) = some f ∧
          fieldNames (.obj [(field, .obj [(op, operand)])]) = f.fields := by
      rintro field op operand hop rfl
      have hfield := hfields field (mem_singleton_self field)
      constructor
      · simp [readJson, readEntries, readEntry, hfield, readOps, hop, conj]
      · simp [fieldNames, entryNames, hfield, fields]
    rw [readCondition] at hcondition
    cases hkey : parseBracketKey (String.ofList name) with
    | none =>
      simp only [hkey] at h
      cases h
      simp only [hkey, getD_none] at hcondition
      split_ifs at hcondition with hop
      exact ⟨_, rfl, hwritten hop (some.inj hcondition).symm⟩
    | some fieldOp =>
      simp only [hkey] at h
      cases h
      simp only [hkey, getD_some] at hcondition
      split_ifs at hcondition with hop
      exact ⟨_, rfl, hwritten hop (some.inj hcondition).symm⟩

/-- The parts of a group together. -/
theorem parts_read (hnested : ∀ text c fs json, c ≠ .not → read text = some fs → allNegationFree fs = true →
      (∀ name ∈ allFields fs, ofKey? name = none) → nested text c.key = .ok json →
        readJson json = some (.group c fs) ∧ fieldNames json = allFields fs)
    {pieces : List (List Char)} {fs : List RowFilter} {written : List (Option Json)}
    (hread : pieces.mapM (readPiece lib read) = some fs) (hfree : allNegationFree fs = true)
    (hfields : ∀ name ∈ allFields fs, ofKey? name = none)
    (h : pieces.mapM (parsePart lib nested) = .ok written) :
    readItems (written.filterMap id) = some fs ∧ itemNames (written.filterMap id) = allFields fs := by
  induction pieces generalizing fs written with
  | nil =>
    cases hread
    cases h
    exact ⟨rfl, rfl⟩
  | cons piece pieces ih =>
    simp only [mapM_cons, Option.bind_eq_bind, Option.bind_eq_some_iff, Option.pure_def,
      Option.some.injEq] at hread
    obtain ⟨f, hf, gs, hgs, rfl⟩ := hread
    simp only [mapM_cons, Outcome.bind_eq_ok, Outcome.pure_eq_ok] at h
    obtain ⟨first, hfirst, others, hothers, rfl⟩ := h
    rw [allNegationFree, Bool.and_eq_true] at hfree
    simp only [allFields, mem_append] at hfields
    obtain ⟨json, rfl, hjson, hnames⟩ :=
      parsePart_reads lib hnested hf hfree.1 (fun name hmem => hfields name (.inl hmem)) hfirst
    obtain ⟨hitems, hitemNames⟩ := ih hgs hfree.2 (fun name hmem => hfields name (.inr hmem)) hothers
    have hkept : (some json :: others).filterMap id = json :: others.filterMap id := filterMap_cons_some rfl
    rw [hkept]
    constructor
    · rw [readItems, hjson, hitems]
      rfl
    · rw [itemNames, hnames, hitemNames, allFields]

/-- A group without negations is written as the JSON of its formula. -/
theorem parseLogicalGroup_reads (levels : Nat) {left : Nat} {c : Connective} {text : List Char}
    {fs : List RowFilter} {json : Json} (hc : c ≠ .not) (hread : readGroup lib left text = some fs)
    (hfree : allNegationFree fs = true) (hfields : ∀ name ∈ allFields fs, ofKey? name = none)
    (h : parseLogicalGroup lib levels text c.key = .ok json) :
    readJson json = some (.group c fs) ∧ fieldNames json = allFields fs := by
  induction levels generalizing left c text fs json with
  | zero => cases h
  | succ levels ih =>
    cases left with
    | zero => cases hread
    | succ left =>
      rw [readGroup] at hread
      rw [parseLogicalGroup_succ] at h
      dsimp only at hread
      split_ifs at hread with henclosed
      split_ifs at h with hopen
      · cases h
      · obtain ⟨⟨piece, pieces⟩, hpieces, hread⟩ := bind_eq_some_iff.mp hread
        obtain ⟨written, hwritten, h⟩ := Outcome.bind_eq_ok.mp h
        have hparts := parts_eq_pieces hpieces []
        rw [Int.natCast_zero, nil_append] at hparts
        rw [hparts] at hwritten
        obtain ⟨hitems, hnames⟩ := parts_read lib
          (fun text c fs json hc hread hfree hfields hjson => ih hc hread hfree hfields hjson)
          hread hfree hfields hwritten
        obtain rfl := Except.ok.inj h
        have hkey : ofKey? c.key = some c := ofKey?_eq_some.mpr rfl
        constructor
        · cases c with
          | not => exact absurd rfl hc
          | and | or =>
            simp only [readJson, readEntries, readEntry, hkey, hitems]
            rfl
        · rw [fieldNames, entryNames, hkey, isSome_some, if_pos rfl, fieldNames, hnames, entryNames,
            append_nil]

end Written

end FraiseQL.Rest
