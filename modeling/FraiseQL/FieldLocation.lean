import Mathlib
import FraiseQL.JsonbExpression
import FraiseQL.RustText
import FraiseQL.WhereGeneratorLexing

/-! Where in the document the expression of a field path leads (`resolve_field_expr`). The rendered text is read back
as an indexed column or as a JSON extraction. PostgreSQL has one operator for each segment; the other dialects write
the segments with dots between them into one JSON path, where a dot in a segment separates like any other. An indexed
column is found by joining the segments with double underscores, and covers the path its name splits into. -/

namespace FraiseQL.FieldLocation

open SqlLex WhereGenerator Dialect List
open Jsonb (after after_append)

/-! ### Names of indexed columns -/

/-- `str::split("__")`, with the characters of the current part. -/
def splitSeams : List Char → List Char → List (List Char)
  | part, '_' :: '_' :: cs => part :: splitSeams [] cs
  | part, c :: cs => splitSeams (part ++ [c]) cs
  | part, [] => [part]

/-- The nested path a column covers: its name is split at double underscores. -/
def indexedPath (column : String) : List String := (splitSeams [] column.toList).map String.ofList

/-- The name under which `resolve_field_expr` looks for a column. -/
def columnName (path : List String) : String := String.intercalate "__" path

/-- The column is used for the path it covers. -/
def IndexedExactly (g : Generator) (path : List String) : Prop :=
  g.indexes path = true → indexedPath (columnName path) = path

/-! ### Reading an expression -/

/-- What an expression refers to: a column, the steps of a path, or the text of a JSON path. -/
inductive Reference where
  | column (name : String)
  | steps (keys : List String)
  | path (text : List Char)

/-- A quoted text after its opening quote, and what follows. -/
def readQuoted (q : Quote) : List Char → Option (List Char × List Char)
  | [] => none
  | [c] => if c = q.closer then some ([], []) else none
  | c :: c' :: cs =>
    if c = q.closer then
      if c' = q.closer then (readQuoted q cs).map fun (content, rest) => (c :: content, rest)
      else some ([], c' :: cs)
    else (readQuoted q (c' :: cs)).map fun (content, rest) => (c :: content, rest)

/-- The operators after the column, the last of which extracts a text. -/
def readSteps : Nat → List Char → Option (List String)
  | _, [] => some []
  | 0, _ :: _ => none
  | _ + 1, '-' :: '>' :: '>' :: '\'' :: cs =>
    (readQuoted .single cs).bind fun (key, rest) => if rest = [] then some [String.ofList key] else none
  | fuel + 1, '-' :: '>' :: '\'' :: cs =>
    (readQuoted .single cs).bind fun (key, rest) => (readSteps fuel rest).map (String.ofList key :: ·)
  | _, _ => none

/-- A function of the document and a JSON path. -/
def readCall (opening closing cs : List Char) : Option Reference :=
  (after opening cs).bind fun cs => (readQuoted .single cs).bind fun (text, rest) =>
    if rest = closing then some (.path text) else none

/-- The reference an expression is. -/
def readReference (d : Dialect) : List Char → Option Reference
  | [] => none
  | c :: cs =>
    if c = d.identifierQuote.opener then
      (readQuoted d.identifierQuote cs).bind fun (name, rest) =>
        if rest = [] then some (.column (String.ofList name)) else none
    else match d with
      | .postgres => (after (lit "data") (c :: cs)).bind fun rest => (readSteps rest.length rest).map .steps
      | .mysql => readCall (lit "JSON_UNQUOTE(JSON_EXTRACT(data, '") (lit "))") (c :: cs)
      | .sqlite => readCall (lit "json_extract(data, '") (lit ")") (c :: cs)
      | .sqlserver => readCall (lit "JSON_VALUE(data, '") (lit ")") (c :: cs)

/-! ### JSON paths -/

/-- Characters that mean something in the JSON path of some database, or in its string literals. -/
def marks : List Char := ['[', '"', '*', '\\', ' ', '\t', '\n', '\r']

def Unmarked (segment : String) : Prop := ∀ c ∈ segment.toList, c ∉ marks

instance (segment : String) : Decidable (Unmarked segment) := List.decidableBAll (fun c => c ∉ marks) segment.toList

/-- The text of a JSON path. -/
def pathText (keys : List String) : List Char := lit "$." ++ (String.intercalate "." keys).toList

/-- How the databases read JSON paths. Keys without marks, written with dots between them, lead to the members of
these names, or the path is refused. -/
structure PathReader where
  read : Dialect → List Char → Option (List String)
  members : ∀ d keys, keys ≠ [] → (∀ key ∈ keys, Unmarked key ∧ '.' ∉ key.toList) →
    ∀ location ∈ read d (pathText keys), location = keys

/-- The member of the document a reference leads to. -/
def Reference.location (reader : PathReader) (d : Dialect) : Reference → Option (List String)
  | .column name => some (indexedPath name)
  | .steps keys => some keys
  | .path text => reader.read d text

/-- The member of the document the expression of a path leads to. -/
def location (reader : PathReader) (g : Generator) (path : List String) : Option (List String) :=
  (readReference g.dialect (resolveFieldExpr g path)).bind (Reference.location reader g.dialect)

/-- However the database reads JSON paths, the two expressions do not lead to one member. -/
def Apart (g : Generator) (p q : List String) : Prop :=
  ∀ (reader : PathReader) (at_ : List String), location reader g p = some at_ → location reader g q ≠ some at_

/-! ### What is known of a path -/

/-- No segment has a double underscore in it, and none but the last ends in an underscore. -/
def Seamless : List String → Prop
  | [] => False
  | [segment] => ¬['_', '_'] <:+: segment.toList
  | segment :: path => ¬['_', '_'] <:+: segment.toList ∧ ¬['_'] <:+ segment.toList ∧ Seamless path

/-- The segments with their dots taken for separators. -/
def dotted (path : List String) : List String :=
  ((String.intercalate "." path).toList.splitOn '.').map String.ofList

/-- The member the expression leads to, as far as it is known: the path itself, or its segments split at their
dots. -/
def known (g : Generator) (path : List String) : Option (List String) :=
  if g.indexes path = true ∨ g.dialect = .postgres then some path
  else if ∀ segment ∈ path, Unmarked segment then some (dotted path)
  else none

/-! ### Names split where they were joined -/

variable {part cs : List Char}

theorem splitSeams_plain (h : ¬['_', '_'] <:+: cs) : splitSeams part cs = [part ++ cs] := by
  induction cs generalizing part with
  | nil => rw [splitSeams, append_nil]
  | cons c cs ih =>
    have hrest : ¬['_', '_'] <:+: cs := fun hin => h (hin.trans (suffix_cons c cs).isInfix)
    rw [splitSeams, ih hrest, append_assoc]
    · rfl
    · rintro cs' rfl rfl
      exact h ⟨[], cs', rfl⟩

/-- A part that ends in no underscore ends where the double underscore begins. -/
theorem splitSeams_append {segment : List Char} (h : ¬['_', '_'] <:+: segment) (hend : ¬['_'] <:+ segment)
    (cs : List Char) :
    splitSeams part (segment ++ '_' :: '_' :: cs) = (part ++ segment) :: splitSeams [] cs := by
  induction segment generalizing part with
  | nil => rw [nil_append, splitSeams, append_nil]
  | cons c segment ih =>
    have hrest : ¬['_', '_'] <:+: segment := fun hin => h (hin.trans (suffix_cons c segment).isInfix)
    have hrestEnd : ¬['_'] <:+ segment := fun hin => hend (hin.trans (suffix_cons c segment))
    rw [cons_append, splitSeams, ih hrest hrestEnd, append_assoc]
    · rfl
    · rintro cs' rfl heq
      cases segment with
      | nil => exact hend (suffix_refl _)
      | cons d segment =>
        obtain ⟨rfl, -⟩ := List.cons.inj heq
        exact h ⟨[], segment, rfl⟩

theorem columnName_toList_cons (segment next : String) (path : List String) :
    (columnName (segment :: next :: path)).toList =
      segment.toList ++ '_' :: '_' :: (columnName (next :: path)).toList := by
  rw [columnName, String.intercalate_cons_cons, String.toList_append, String.toList_append, append_assoc]
  rfl

variable {path : List String}

theorem splitSeams_columnName (h : Seamless path) :
    splitSeams [] (columnName path).toList = path.map String.toList := by
  induction path with
  | nil => exact h.elim
  | cons segment path ih =>
    cases path with
    | nil => rw [columnName, String.intercalate_singleton, splitSeams_plain h, nil_append, map_cons, map_nil]
    | cons next path =>
      obtain ⟨hin, hend, hrest⟩ := h
      rw [columnName_toList_cons, splitSeams_append hin hend, ih hrest, nil_append, map_cons]
      rfl

variable {c : Char}

theorem no_seam_snoc (h : ¬['_', '_'] <:+: part) (hend : ['_'] <:+ part → c ≠ '_') : ¬['_', '_'] <:+: part ++ [c] := by
  rintro ⟨front, back, heq⟩
  rcases eq_nil_or_concat back with rfl | ⟨back, d, rfl⟩
  · have hlast : front ++ ['_'] ++ ['_'] = part ++ [c] := by simpa using heq
    obtain ⟨hpart, hc⟩ := append_inj' hlast rfl
    exact hend ⟨front, hpart⟩ (List.cons.inj hc).1.symm
  · have hlast : front ++ ['_', '_'] ++ back ++ [d] = part ++ [c] := by simpa [concat_eq_append] using heq
    obtain ⟨hpart, -⟩ := append_inj' hlast rfl
    exact h ⟨front, back, hpart⟩

/-- What a name splits into has no seams left. -/
theorem seamless_splitSeams (h : ¬['_', '_'] <:+: part)
    (hend : ['_'] <:+ part → ∀ cs', cs ≠ '_' :: cs') : Seamless ((splitSeams part cs).map String.ofList) := by
  induction part, cs using splitSeams.induct with
  | case1 part cs ih =>
    have hpart : ¬['_'] <:+ part := fun hin => hend hin _ rfl
    have hrest := ih (by simp) (by simp)
    rw [splitSeams, map_cons]
    generalize (splitSeams [] cs).map String.ofList = parts at hrest ⊢
    cases parts with
    | nil => exact hrest.elim
    | cons next parts => exact ⟨by rwa [String.toList_ofList], by rwa [String.toList_ofList], hrest⟩
  | case2 part c cs hno ih =>
    rw [splitSeams]
    · refine ih (no_seam_snoc h fun hin hc => hend hin cs (by rw [hc])) ?_
      rintro ⟨front, heq⟩ cs' rfl
      obtain ⟨-, hc⟩ := append_inj' heq rfl
      exact hno cs' (List.cons.inj hc).1.symm rfl
    · exact hno
  | case3 part =>
    rw [splitSeams, map_cons, map_nil, Seamless, String.toList_ofList]
    exact h

/-- A column covers the path that its name was joined from exactly when no other path has that name. -/
theorem indexedPath_eq_iff (path : List String) : indexedPath (columnName path) = path ↔ Seamless path := by
  constructor
  · intro heq
    rw [← heq]
    exact seamless_splitSeams (by simp) (by simp)
  · intro h
    rw [indexedPath, splitSeams_columnName h, map_map]
    simp

/-! ### What the expressions say -/

theorem readQuoted_doubled {q : Quote} (content : List Char) {rest : List Char} (h : ∀ cs, rest ≠ q.closer :: cs) :
    readQuoted q (doubled q content ++ q.closer :: rest) = some (content, rest) := by
  induction content with
  | nil =>
    cases rest with
    | nil => exact if_pos rfl
    | cons c rest =>
      have hc : c ≠ q.closer := fun hc => h rest (by rw [hc])
      show readQuoted q (q.closer :: c :: rest) = _
      rw [readQuoted, if_pos rfl, if_neg hc]
  | cons c content ih =>
    by_cases hc : c = q.closer
    · rw [doubled_cons_closer hc, cons_append, cons_append, readQuoted, if_pos hc, if_pos hc, ih]
      rfl
    · rw [doubled_cons_of_ne hc, cons_append]
      have hne : doubled q content ++ q.closer :: rest ≠ [] := by simp
      generalize doubled q content ++ q.closer :: rest = cs at ih hne ⊢
      cases cs with
      | nil => exact absurd rfl hne
      | cons d cs =>
        rw [readQuoted, if_neg hc, ih]
        rfl

theorem readSteps_postgresPath {fuel : Nat} (h : path.length ≤ fuel) :
    readSteps fuel (postgresPath path) = some path := by
  induction path generalizing fuel with
  | nil => cases fuel <;> rfl
  | cons segment path ih =>
    cases fuel with
    | zero => cases h
    | succ fuel =>
      cases path with
      | nil =>
        show readSteps (fuel + 1) ('-' :: '>' :: '>' :: '\'' :: (doubled .single segment.toList ++ ['\''])) = _
        have hread : readQuoted .single (doubled .single segment.toList ++ ['\'']) = some (segment.toList, []) :=
          readQuoted_doubled segment.toList nofun
        rw [readSteps, hread, Option.bind_some]
        show (if ([] : List Char) = [] then some [String.ofList segment.toList] else none) = _
        rw [if_pos rfl, String.ofList_toList]
      | cons next path =>
        have htext : postgresPath (segment :: next :: path) =
            '-' :: '>' :: '\'' :: (doubled .single segment.toList ++ '\'' :: postgresPath (next :: path)) := by
          simp [postgresPath, quote, lit, Quote.opener, Quote.closer]
        have hstart : ∀ cs, postgresPath (next :: path) ≠ '\'' :: cs := by
          intro cs
          cases path <;> simp [postgresPath, lit]
        have hread := readQuoted_doubled (q := .single) segment.toList hstart
        rw [htext, readSteps]
        · rw [show ('\'' :: postgresPath (next :: path)) = Quote.closer .single :: postgresPath (next :: path) from rfl,
            hread, Option.bind_some]
          show (readSteps fuel (postgresPath (next :: path))).map (String.ofList segment.toList :: ·) = _
          rw [ih (Nat.le_of_succ_le_succ h), String.ofList_toList]
          rfl

theorem readCall_quote (opening closing : List Char) (content : List Char) (h : ∀ cs, closing ≠ '\'' :: cs) :
    readCall opening closing (opening ++ (doubled .single content ++ '\'' :: closing)) = some (.path content) := by
  have hread := readQuoted_doubled (q := .single) content h
  rw [readCall, after_append, Option.bind_some]
  rw [show ('\'' :: closing) = Quote.closer .single :: closing from rfl, hread, Option.bind_some]
  exact if_pos rfl

/-- An indexed column is read back under its name. -/
theorem readReference_column (d : Dialect) (name : String) :
    readReference d (quoteIdentifier d name.toList) = some (.column name) := by
  have hread : readQuoted d.identifierQuote (doubled d.identifierQuote name.toList ++ [d.identifierQuote.closer]) =
      some (name.toList, []) := readQuoted_doubled name.toList nofun
  simp only [quoteIdentifier, quote, cons_append, readReference, if_true, hread, Option.bind_some,
    String.ofList_toList]

theorem length_le_postgresPath (path : List String) : path.length ≤ (postgresPath path).length := by
  induction path with
  | nil => exact Nat.zero_le _
  | cons segment path ih =>
    cases path with
    | nil => simp [postgresPath, lit]
    | cons next path =>
      rw [postgresPath, length_append, length_cons]
      · have hpos : 1 ≤ (lit "->" ++ quote .single segment.toList).length := by simp [lit]
        omega
      · exact List.cons_ne_nil _ _

theorem readReference_call {d : Dialect} {opening closing : List Char} {content : List Char}
    (hopening : opening = c :: cs) (hclosing : ∀ cs, closing ≠ '\'' :: cs)
    (hd : ∀ cs', readReference d (c :: cs') = readCall opening closing (c :: cs')) :
    readReference d (opening ++ (doubled .single content ++ '\'' :: closing)) = some (.path content) := by
  rw [← readCall_quote opening closing content hclosing, hopening, cons_append, hd, hopening]

/-- The other expressions are read back as the path or the text of it. -/
theorem readReference_extract (d : Dialect) (path : List String) :
    readReference d (jsonExtractScalar path d) =
      some (if d = .postgres then .steps path else .path (pathText path)) := by
  have hquote : ∀ opening closing : List Char, opening ++ jsonPathLiteral path ++ closing =
      (opening ++ ['\'']) ++ (doubled .single (pathText path) ++ '\'' :: closing) := by
    intro opening closing
    simp [jsonPathLiteral, quote, pathText, Quote.opener, Quote.closer]
  cases d with
  | postgres =>
    have hafter : after (lit "data") (lit "data" ++ postgresPath path) = some (postgresPath path) :=
      after_append (lit "data") _
    have hread : readReference .postgres (lit "data" ++ postgresPath path) =
        (after (lit "data") (lit "data" ++ postgresPath path)).bind fun rest =>
          (readSteps rest.length rest).map .steps := rfl
    rw [jsonExtractScalar, hread, hafter, Option.bind_some, readSteps_postgresPath (length_le_postgresPath path), if_pos rfl]
    rfl
  | mysql | sqlite | sqlserver =>
    rw [jsonExtractScalar, hquote]
    exact readReference_call rfl (by rintro _ ⟨⟩) fun _ => rfl

/-- Where the expression of a path leads. -/
theorem location_eq (reader : PathReader) (g : Generator) (path : List String) :
    location reader g path =
      if g.indexes path = true then some (indexedPath (columnName path))
      else if g.dialect = .postgres then some path
      else reader.read g.dialect (pathText path) := by
  rw [location, resolveFieldExpr_eq]
  by_cases hindexed : g.indexes path = true
  · rw [if_pos hindexed, if_pos hindexed, readReference_column]
    rfl
  · rw [if_neg hindexed, if_neg hindexed, readReference_extract]
    by_cases hd : g.dialect = .postgres
    · rw [if_pos hd, if_pos hd]
      rfl
    · rw [if_neg hd, if_neg hd]
      rfl

/-! ### Paths that are read for certain -/

theorem pathText_toList (keys : List String) :
    pathText keys = lit "$." ++ ['.'].intercalate (keys.map String.toList) := by
  rw [pathText, String.toList_intercalate]
  rfl

theorem dotted_toList (path : List String) :
    (dotted path).map String.toList = (String.intercalate "." path).toList.splitOn '.' := by
  rw [dotted, map_map]
  simp

/-- Both are written as the same path. -/
theorem pathText_dotted (path : List String) : pathText (dotted path) = pathText path := by
  rw [pathText_toList, dotted_toList, intercalate_splitOn]
  rfl

theorem dotted_ne_nil (path : List String) : dotted path ≠ [] := by
  rw [dotted, Ne, map_eq_nil_iff]
  exact splitOn_ne_nil _ _

theorem mem_joined {segment : String} (h : segment ∈ path)
    (hc : c ∈ segment.toList) : c ∈ (String.intercalate "." path).toList := by
  induction path with
  | nil => cases h
  | cons first path ih =>
    cases path with
    | nil =>
      obtain rfl := mem_singleton.mp h
      rwa [String.intercalate_singleton]
    | cons next path =>
      rw [String.intercalate_cons_cons, String.toList_append, String.toList_append]
      rcases mem_cons.mp h with rfl | h
      · exact mem_append_left _ (mem_append_left _ hc)
      · exact mem_append_right _ (ih h)

theorem unmarked_joined (h : ∀ segment ∈ path, Unmarked segment)
    (hc : c ∈ (String.intercalate "." path).toList) : c ∉ marks := by
  rcases mem_intercalate hc with hdot | ⟨segment, hs, hmem⟩
  · obtain rfl := mem_singleton.mp hdot
    decide
  · exact h segment hs c hmem

theorem dotted_plain (h : ∀ segment ∈ path, Unmarked segment) :
    ∀ key ∈ dotted path, Unmarked key ∧ '.' ∉ key.toList := by
  intro key hkey
  obtain ⟨part, hpart, rfl⟩ := mem_map.mp hkey
  obtain ⟨hdot, hmem⟩ := RustText.mem_splitOn hpart
  rw [Unmarked, String.toList_ofList]
  exact ⟨fun c hc => unmarked_joined h (hmem c hc), hdot⟩

theorem dotted_of_plain {keys : List String} (hne : keys ≠ []) (h : ∀ key ∈ keys, Unmarked key ∧ '.' ∉ key.toList) :
    dotted keys = keys := by
  have hparts : ∀ part ∈ keys.map String.toList, '.' ∉ part := by
    intro part hpart
    obtain ⟨key, hkey, rfl⟩ := mem_map.mp hpart
    exact (h key hkey).2
  rw [dotted, String.toList_intercalate]
  show ((['.'].intercalate (keys.map String.toList)).splitOn '.').map String.ofList = keys
  rw [splitOn_intercalate '.' hparts (by simpa using hne), map_map]
  simp

/-- A database that accepts every path, and takes one member for all those with marks. -/
def markedReader (at_ : List String) : PathReader where
  read _ text := if ∃ c ∈ text, c ∈ marks then some at_ else some ((text.drop 2).splitOn '.' |>.map String.ofList)
  members := by
    intro d keys hne hkeys location hread
    have hplain : ¬∃ c ∈ pathText keys, c ∈ marks := by
      rintro ⟨c, hc, hmark⟩
      rcases List.mem_append.mp hc with hc | hc
      · have hstart : ∀ c ∈ lit "$.", c ∉ marks := by simp [lit, marks]
        exact hstart c hc hmark
      · exact unmarked_joined (fun key hkey => (hkeys key hkey).1) hc hmark
    rw [if_neg hplain] at hread
    rw [← Option.some.inj hread]
    exact dotted_of_plain hne hkeys

section Paths

variable {g : Generator} {p q path at_ : List String}

/-- A location that is known is the only one a database may find. -/
theorem location_of_known (reader : PathReader) (hexact : IndexedExactly g path) (hknown : known g path = some at_)
    {found : List String} (hfound : location reader g path = some found) : found = at_ := by
  rw [location_eq] at hfound
  rw [known] at hknown
  by_cases hindexed : g.indexes path = true
  · rw [if_pos hindexed] at hfound
    rw [if_pos (.inl hindexed)] at hknown
    rw [← Option.some.inj hfound, ← Option.some.inj hknown]
    exact hexact hindexed
  · rw [if_neg hindexed] at hfound
    by_cases hd : g.dialect = .postgres
    · rw [if_pos hd] at hfound
      rw [if_pos (.inr hd)] at hknown
      exact Option.some.inj (hfound.symm.trans hknown)
    · rw [if_neg hd] at hfound
      rw [if_neg (not_or.mpr ⟨hindexed, hd⟩)] at hknown
      split_ifs at hknown with hplain
      rw [← Option.some.inj hknown]
      refine reader.members g.dialect (dotted path) (dotted_ne_nil path) (dotted_plain hplain) found ?_
      rw [pathText_dotted]
      exact hfound

/-- A database that accepts every path finds what is known. -/
theorem markedReader_known (marked : List String) (hexact : IndexedExactly g path) (hknown : known g path = some at_) :
    location (markedReader marked) g path = some at_ := by
  cases hfound : location (markedReader marked) g path with
  | some found => rw [location_of_known _ hexact hknown hfound]
  | none =>
    rw [location_eq] at hfound
    split_ifs at hfound
    simp only [markedReader] at hfound
    split_ifs at hfound

theorem markedReader_unknown (marked : List String) (hknown : known g path = none) :
    location (markedReader marked) g path = some marked := by
  rw [known] at hknown
  split_ifs at hknown with hsome hplain
  obtain ⟨hindexed, hd⟩ := not_or.mp hsome
  rw [location_eq, if_neg hindexed, if_neg hd]
  have hmarked : ∃ c ∈ pathText path, c ∈ marks := by
    simp only [Unmarked, not_forall, not_not] at hplain
    obtain ⟨segment, hsegment, c, hc, hmark⟩ := hplain
    refine ⟨c, mem_append_right _ ?_, hmark⟩
    exact mem_joined hsegment hc
  simp only [markedReader]
  rw [if_pos hmarked]

theorem indexedExactly_iff : IndexedExactly g path ↔ (g.indexes path = true → Seamless path) := by
  rw [IndexedExactly, indexedPath_eq_iff]

/-- Two paths lead apart for every database, by columns that cover them, exactly when the names of the columns have no
further seams and the members the expressions lead to are known and different. -/
theorem apart_iff_known (g : Generator) (p q : List String) :
    (Apart g p q ∧ IndexedExactly g p ∧ IndexedExactly g q) ↔
      (g.indexes p = true → Seamless p) ∧ (g.indexes q = true → Seamless q) ∧
        ∃ a b, known g p = some a ∧ known g q = some b ∧ a ≠ b := by
  rw [← indexedExactly_iff, ← indexedExactly_iff]
  constructor
  · rintro ⟨hapart, hp, hq⟩
    refine ⟨hp, hq, ?_⟩
    cases hknown : known g p with
    | none =>
      cases hother : known g q with
      | none => exact absurd (markedReader_unknown [] hother) (hapart _ _ (markedReader_unknown [] hknown))
      | some b =>
        exact absurd (markedReader_known b hq hother) (hapart _ _ (markedReader_unknown b hknown))
    | some a =>
      cases hother : known g q with
      | none => exact absurd (markedReader_unknown a hother) (hapart _ _ (markedReader_known a hp hknown))
      | some b =>
        refine ⟨a, b, rfl, rfl, ?_⟩
        rintro rfl
        exact hapart _ _ (markedReader_known [] hp hknown) (markedReader_known [] hq hother)
  · rintro ⟨hp, hq, a, b, hknown, hother, hne⟩
    refine ⟨?_, hp, hq⟩
    intro reader found hfound hsame
    obtain rfl := location_of_known reader hp hknown hfound
    exact hne (location_of_known reader hq hother hsame)

end Paths

/-- A field whose name has a double underscore, and a nested field with an indexed column. -/
theorem column_used_for_another_path :
    ¬∀ (g : Generator) (p q : List String), p ≠ q → Apart g p q ∧ IndexedExactly g p ∧ IndexedExactly g q := by
  intro hall
  obtain ⟨-, -, hexact⟩ := hall ⟨.postgres, some ["items__code"]⟩ ["items", "code"] ["items__code"] (by decide)
  exact absurd (hexact (by decide)) (by decide)

end FraiseQL.FieldLocation
