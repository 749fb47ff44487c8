import FraiseQL.Projection
import FraiseQL.SqlLex

/-! The `jsonb` expressions a typed projection is written with: paths into the column, text extraction and
`jsonb_build_object`. An expression has a text, the text is read back to it, and it has a value in a row; so
the SQL the generator emits denotes a JSON value. -/

namespace FraiseQL.Jsonb

open List

open SqlLex (lit)

/-- An expression over the column `data`. Text extraction ends a path: its result is no `jsonb`. -/
inductive Expr where
  | member (path : List String)
  | memberText (path : List String) (key : String)
  | buildObject (pairs : List (String × Expr))

/-! ### Text -/

/-- A key as a string literal. -/
def keyText (key : String) : List Char := SqlLex.quote .single key.toList

def stepsText (path : List String) : List Char := path.flatMap fun key => lit "->" ++ keyText key

def pathText (path : List String) : List Char := lit "\"data\"" ++ stepsText path

namespace Expr

mutual

def text : Expr → List Char
  | .member path => pathText path
  | .memberText path key => pathText path ++ lit "->>" ++ keyText key
  | .buildObject pairs => lit "jsonb_build_object(" ++ pairsText pairs ++ [')']

def pairsText : List (String × Expr) → List Char
  | [] => []
  | (key, e) :: pairs => keyText key ++ lit ", " ++ text e ++ moreText pairs

/-- The pairs after the first. -/
def moreText : List (String × Expr) → List Char
  | [] => []
  | (key, e) :: pairs => ',' :: keyText key ++ lit ", " ++ text e ++ moreText pairs

end

end Expr

/-! ### Reading a text -/

/-- The content of a string literal, after its opening quote. -/
def readKey : List Char → Option (List Char × List Char)
  | '\'' :: '\'' :: cs => (readKey cs).map fun (key, rest) => ('\'' :: key, rest)
  | '\'' :: cs => some ([], cs)
  | c :: cs => (readKey cs).map fun (key, rest) => (c :: key, rest)
  | [] => none

/-- The steps of a path, after the column. -/
def readPath : Nat → List String → List Char → Option (Expr × List Char)
  | 0, _, _ => none
  | _ + 1, path, '-' :: '>' :: '>' :: '\'' :: cs =>
    (readKey cs).map fun (key, rest) => (.memberText path (String.ofList key), rest)
  | fuel + 1, path, '-' :: '>' :: '\'' :: cs =>
    (readKey cs).bind fun (key, rest) => readPath fuel (path ++ [String.ofList key]) rest
  | _ + 1, path, cs => some (.member path, cs)

/-- The text after a word it starts with. -/
def after (word cs : List Char) : Option (List Char) :=
  if word.isPrefixOf cs then some (cs.drop word.length) else none

mutual

def readExpr : Nat → List Char → Option (Expr × List Char)
  | 0, _ => none
  | fuel + 1, cs =>
    match after (lit "jsonb_build_object(") cs with
    | some (')' :: rest) => some (.buildObject [], rest)
    | some args => (readPairs fuel args).map fun (pairs, rest) => (.buildObject pairs, rest)
    | none => (after (lit "\"data\"") cs).bind (readPath fuel [])

/-- The arguments of `jsonb_build_object`, to its closing parenthesis. -/
def readPairs : Nat → List Char → Option (List (String × Expr) × List Char)
  | fuel + 1, '\'' :: cs =>
    (readKey cs).bind fun (key, rest) =>
      (after (lit ", ") rest).bind fun rest =>
        (readExpr fuel rest).bind fun (e, rest) =>
          match rest with
          | ')' :: rest => some ([(String.ofList key, e)], rest)
          | ',' :: rest =>
            (readPairs fuel rest).map fun (pairs, rest) => ((String.ofList key, e) :: pairs, rest)
          | _ => none
  | _, _ => none

end

/-- The expression a text is. -/
def read (sql : String) : Option Expr :=
  match readExpr (sql.toList.length + 1) sql.toList with
  | some (e, []) => some e
  | _ => none

/-! ### Value -/

/-- The value at a path; `->` gives `NULL` on a missing key and on what is no object. -/
def at? (path : List String) (data : Json) : Option Json :=
  path.foldl (fun value key => value.bind (Json.get? key)) (some data)

/-- `->>`: a string as it is, any other value as its text; `NULL` stays `NULL`. -/
def textOf (render : Json → String) : Option Json → Json
  | none => .null
  | some .null => .null
  | some (.str s) => .str s
  | some value => .str (render value)

/-- The entries of an object built from pairs: the last pair of a key stands. -/
def buildEntries (pairs : List (String × Json)) : List (String × Json) :=
  pairs.foldl (fun entries pair => insertEntry pair.1 pair.2 entries) []

namespace Expr

variable (render : Json → String) (data : Json)

mutual

/-- The value of an expression in a row. `NULL` in an object is the JSON `null`. -/
def eval : Expr → Json
  | .member path => (at? path data).getD .null
  | .memberText path key => textOf render (at? (path ++ [key]) data)
  | .buildObject pairs => .obj (buildEntries (evalPairs pairs))

def evalPairs : List (String × Expr) → List (String × Json)
  | [] => []
  | (key, e) :: pairs => (key, eval e) :: evalPairs pairs

end

end Expr

/-- The value a text denotes in a row. -/
def denotes (render : Json → String) (sql : String) (data : Json) : Option Json :=
  (read sql).map fun e => e.eval render data

/-! ### A text is read back -/

theorem readKey_char {c : Char} (hc : c ≠ '\'') (cs : List Char) :
    readKey (c :: cs) = (readKey cs).map fun (key, rest) => (c :: key, rest) := by
  rw [readKey]
  · intro rest heq
    exact absurd heq hc
  · intro heq
    exact absurd heq hc

/-- The next character is no quote. -/
def NoQuote (rest : List Char) : Prop := ∀ cs, rest ≠ '\'' :: cs

variable {rest : List Char}

theorem readKey_close (h : NoQuote rest) : readKey ('\'' :: rest) = some ([], rest) := by
  rw [readKey]
  intro cs hcs
  exact absurd hcs (h cs)

theorem readKey_doubled (key : List Char) (h : NoQuote rest) :
    readKey (SqlLex.doubled .single key ++ '\'' :: rest) = some (key, rest) := by
  induction key with
  | nil => exact readKey_close h
  | cons c key ih =>
    by_cases hc : c = '\''
    · have hquote : SqlLex.doubled .single (c :: key) = '\'' :: '\'' :: SqlLex.doubled .single key := by
        rw [SqlLex.doubled_cons_closer hc, hc]
      rw [hquote, cons_append, cons_append, readKey, ih, hc]
      rfl
    · rw [SqlLex.doubled_cons_of_ne hc, cons_append, readKey_char hc, ih]
      rfl

/-- What follows an expression goes on with no path. -/
def Ends (rest : List Char) : Prop := NoQuote rest ∧ ∀ cs, rest ≠ '-' :: cs

theorem readPath_end (fuel : Nat) (path : List String) (h : Ends rest) :
    readPath (fuel + 1) path rest = some (.member path, rest) := by
  rw [readPath]
  · intro cs hcs
    exact absurd hcs (h.2 _)
  · intro cs hcs
    exact absurd hcs (h.2 _)

theorem keyText_append (key : String) (rest : List Char) :
    keyText key ++ rest = '\'' :: (SqlLex.doubled .single key.toList ++ '\'' :: rest) := by
  simp [keyText, SqlLex.quote, SqlLex.Quote.opener, SqlLex.Quote.closer]

theorem noQuote_steps (steps : List String) (h : NoQuote rest) : NoQuote (stepsText steps ++ rest) := by
  cases steps with
  | nil => exact h
  | cons key steps =>
    intro cs hcs
    exact absurd (cons.inj hcs).1 (by decide)

/-- Each key of a path takes one unit of fuel. -/
theorem readPath_steps (steps path : List String) (fuel : Nat) (h : NoQuote rest) :
    readPath (fuel + steps.length) path (stepsText steps ++ rest) = readPath fuel (path ++ steps) rest := by
  induction steps generalizing path with
  | nil => rw [append_nil, stepsText, flatMap_nil, nil_append, length_nil, Nat.add_zero]
  | cons key steps ih =>
    rw [stepsText, flatMap_cons, ← stepsText, append_assoc, append_assoc, keyText_append]
    show (readKey _).bind _ = _
    rw [readKey_doubled _ (noQuote_steps steps h)]
    show readPath (fuel + steps.length) (path ++ [String.ofList key.toList]) _ = _
    rw [String.ofList_toList, ih, append_assoc, singleton_append]

variable (path : List String)

theorem readPath_text (key : String) (fuel : Nat) (h : NoQuote rest) :
    readPath (fuel + 1) path (lit "->>" ++ keyText key ++ rest) = some (.memberText path key, rest) := by
  rw [append_assoc, keyText_append]
  show (readKey _).map _ = _
  rw [readKey_doubled _ h]
  show some (Expr.memberText path (String.ofList key.toList), rest) = _
  rw [String.ofList_toList]

theorem after_append (word cs : List Char) : after word (word ++ cs) = some cs := by
  rw [after, if_pos (List.isPrefixOf_iff_prefix.mpr (prefix_append word cs)), drop_left]

theorem after_build_data (cs : List Char) : after (lit "jsonb_build_object(") (lit "\"data\"" ++ cs) = none :=
  rfl

/-- An expression that starts with the column is read as a path. -/
theorem readExpr_path (fuel : Nat) (cs : List Char) :
    readExpr (fuel + 1) (lit "\"data\"" ++ cs) = readPath fuel [] cs := by
  rw [readExpr, after_build_data, after_append]
  rfl

theorem length_steps_le : path.length ≤ (stepsText path).length := by
  induction path with
  | nil => exact Nat.le_refl _
  | cons key path ih =>
    rw [stepsText, flatMap_cons, ← stepsText, length_append, length_cons, length_append]
    have harrow : (lit "->").length = 2 := rfl
    omega

theorem noQuote_text (key : String) (rest : List Char) : NoQuote (lit "->>" ++ keyText key ++ rest) := by
  intro cs hcs
  exact absurd (cons.inj hcs).1 (by decide)

theorem ends_comma (cs : List Char) : Ends (',' :: cs) :=
  ⟨fun _ h => absurd (cons.inj h).1 (by decide), fun _ h => absurd (cons.inj h).1 (by decide)⟩

theorem ends_close (cs : List Char) : Ends (')' :: cs) :=
  ⟨fun _ h => absurd (cons.inj h).1 (by decide), fun _ h => absurd (cons.inj h).1 (by decide)⟩

theorem readExpr_member (fuel : Nat) (rest : List Char) (hends : Ends rest)
    (hfuel : (pathText path ++ rest).length < fuel) :
    readExpr fuel (pathText path ++ rest) = some (.member path, rest) := by
  have hsteps := length_steps_le path
  rw [pathText, append_assoc, length_append, length_append] at hfuel
  obtain ⟨n, rfl⟩ : ∃ n, fuel = n + 1 + path.length + 1 := ⟨fuel - path.length - 2, by
    have hdata : (lit "\"data\"").length = 6 := rfl
    omega⟩
  rw [pathText, append_assoc, readExpr_path, readPath_steps _ _ _ hends.1, readPath_end _ _ hends]
  rfl

theorem readExpr_memberText (key : String) (fuel : Nat) (rest : List Char)
    (hends : Ends rest) (hfuel : (Expr.text (.memberText path key) ++ rest).length < fuel) :
    readExpr fuel (Expr.text (.memberText path key) ++ rest) = some (.memberText path key, rest) := by
  have hsteps := length_steps_le path
  have htext : Expr.text (.memberText path key) ++ rest =
      lit "\"data\"" ++ (stepsText path ++ (lit "->>" ++ keyText key ++ rest)) := by
    simp only [Expr.text, pathText, append_assoc]
  rw [htext] at hfuel ⊢
  rw [length_append, length_append] at hfuel
  obtain ⟨n, rfl⟩ : ∃ n, fuel = n + 1 + path.length + 1 := ⟨fuel - path.length - 2, by
    have hdata : (lit "\"data\"").length = 6 := rfl
    omega⟩
  rw [readExpr_path, readPath_steps _ _ _ (noQuote_text key rest), readPath_text _ _ _ hends.1]
  rfl

/-- The next character starts a string literal, so the arguments are not empty. -/
theorem readExpr_build (fuel : Nat) (cs : List Char) :
    readExpr (fuel + 1) (lit "jsonb_build_object(" ++ '\'' :: cs) =
      (readPairs fuel ('\'' :: cs)).map fun (pairs, rest) => (.buildObject pairs, rest) := by
  rw [readExpr, after_append]
  rfl

theorem readPairs_head (key : String) (fuel : Nat) (cs : List Char) :
    readPairs (fuel + 1) (keyText key ++ lit ", " ++ cs) =
      (readExpr fuel cs).bind fun (e, rest) =>
        match rest with
        | ')' :: rest => some ([(key, e)], rest)
        | ',' :: rest => (readPairs fuel rest).map fun (pairs, rest) => ((key, e) :: pairs, rest)
        | _ => none := by
  have hcomma : NoQuote (lit ", " ++ cs) := fun _ h => absurd (cons.inj h).1 (by decide)
  rw [append_assoc, keyText_append, readPairs, readKey_doubled _ hcomma, Option.bind_some]
  show (after (lit ", ") (lit ", " ++ cs)).bind _ = _
  rw [after_append, String.ofList_toList]
  rfl

mutual

theorem readExpr_text : ∀ (e : Expr) (fuel : Nat) (rest : List Char), Ends rest →
    (e.text ++ rest).length < fuel → readExpr fuel (e.text ++ rest) = some (e, rest)
  | .member path, fuel, rest, hends, hfuel => readExpr_member path fuel rest hends hfuel
  | .memberText path key, fuel, rest, hends, hfuel => readExpr_memberText path key fuel rest hends hfuel
  | .buildObject [], fuel, rest, _, hfuel => by
    obtain ⟨n, rfl⟩ : ∃ n, fuel = n + 1 := ⟨fuel - 1, by omega⟩
    rfl
  | .buildObject ((key, e) :: pairs), fuel, rest, _, hfuel => by
    obtain ⟨n, rfl⟩ : ∃ n, fuel = n + 1 := ⟨fuel - 1, by omega⟩
    have htext : Expr.text (.buildObject ((key, e) :: pairs)) ++ rest =
        lit "jsonb_build_object(" ++ (Expr.pairsText ((key, e) :: pairs) ++ ')' :: rest) := by
      rw [Expr.text, append_assoc, append_assoc, singleton_append]
    rw [htext, length_append] at hfuel
    have hpairs := readPairs_text key e pairs n rest (by
      have hword : (lit "jsonb_build_object(").length = 19 := rfl
      omega)
    have hquote : ∃ cs, Expr.pairsText ((key, e) :: pairs) ++ ')' :: rest = '\'' :: cs := by
      rw [Expr.pairsText, append_assoc, append_assoc, append_assoc, keyText_append]
      exact ⟨_, rfl⟩
    obtain ⟨cs, hcs⟩ := hquote
    rw [htext, hcs, readExpr_build, ← hcs, hpairs]
    rfl

theorem readPairs_text : ∀ (key : String) (e : Expr) (pairs : List (String × Expr)) (fuel : Nat)
    (rest : List Char), (Expr.pairsText ((key, e) :: pairs) ++ ')' :: rest).length < fuel →
      readPairs fuel (Expr.pairsText ((key, e) :: pairs) ++ ')' :: rest) = some ((key, e) :: pairs, rest)
  | key, e, [], fuel, rest, hfuel => by
    obtain ⟨n, rfl⟩ : ∃ n, fuel = n + 1 := ⟨fuel - 1, by omega⟩
    have htext : Expr.pairsText [(key, e)] ++ ')' :: rest =
        keyText key ++ lit ", " ++ (e.text ++ ')' :: rest) := by
      simp only [Expr.pairsText, Expr.moreText, append_assoc, nil_append]
    rw [htext, append_assoc, length_append, length_append] at hfuel
    have he := readExpr_text e n (')' :: rest) (ends_close rest) (by
      have hcomma : (lit ", ").length = 2 := rfl
      omega)
    rw [htext, readPairs_head, he]
    rfl
  | key, e, (next, f) :: pairs, fuel, rest, hfuel => by
    obtain ⟨n, rfl⟩ : ∃ n, fuel = n + 1 := ⟨fuel - 1, by omega⟩
    have htext : Expr.pairsText ((key, e) :: (next, f) :: pairs) ++ ')' :: rest =
        keyText key ++ lit ", " ++ (e.text ++ ',' :: (Expr.pairsText ((next, f) :: pairs) ++ ')' :: rest)) := by
      simp only [Expr.pairsText, Expr.moreText, append_assoc, cons_append]
    rw [htext, append_assoc, length_append, length_append, length_append,
      length_cons] at hfuel
    have hcomma : (lit ", ").length = 2 := rfl
    have he := readExpr_text e n (',' :: (Expr.pairsText ((next, f) :: pairs) ++ ')' :: rest))
      (ends_comma _) (by
        rw [length_append, length_cons]
        omega)
    have hpairs := readPairs_text next f pairs n rest (by omega)
    rw [htext, readPairs_head, he, Option.bind_some]
    show (readPairs n (Expr.pairsText ((next, f) :: pairs) ++ ')' :: rest)).map _ = _
    rw [hpairs]
    rfl

end

theorem read_text (e : Expr) : read (String.ofList e.text) = some e := by
  have hends : Ends [] := ⟨fun _ => (cons_ne_nil _ _).symm, fun _ => (cons_ne_nil _ _).symm⟩
  have hread := readExpr_text e (e.text.length + 1) [] hends (by
    rw [append_nil]
    exact Nat.lt_succ_self _)
  rw [append_nil] at hread
  rw [read, String.toList_ofList, hread]

theorem denotes_text (render : Json → String) (e : Expr) (data : Json) :
    denotes render (String.ofList e.text) data = some (e.eval render data) := by
  rw [denotes, read_text]
  rfl

/-! ### The typed projection as an expression -/

section Projection

variable (cc : WhereFilter.CharCase)

mutual

/-- The pair a projected field is rendered as. -/
def fieldPair (path : List String) (depth : Nat) : ProjectionField → String × Expr
  | .mk name kind subFields =>
    let key := WhereFilter.toSnakeCase cc name
    let direct := if kind = .text then Expr.memberText path key else .member (path ++ [key])
    match subFields with
    | some (sub :: subs) =>
      if depth < maxDepth then
        (name, .buildObject (fieldPairs (path ++ [key]) (depth + 1) (sub :: subs)))
      else (name, direct)
    | _ => (name, direct)

def fieldPairs (path : List String) (depth : Nat) : List ProjectionField → List (String × Expr)
  | [] => []
  | field :: fields => fieldPair path depth field :: fieldPairs path depth fields

end

def typedProjection (fields : List ProjectionField) : Expr :=
  if fields.isEmpty then .member [] else .buildObject (fieldPairs cc [] 0 fields)

theorem escapeQuotes_toList (s : String) : (escapeQuotes s).toList = SqlLex.doubled .single s.toList := by
  rw [escapeQuotes, String.toList_ofList, SqlLex.doubled]
  congr 1
  funext c
  show (if c = '\'' then _ else _) = if c = '\'' then _ else _
  split_ifs with hc
  · rw [hc]
  · rfl

theorem keyText_eq (key : String) : keyText key = ("'" ++ escapeQuotes key ++ "'").toList := by
  rw [String.toList_append, String.toList_append, escapeQuotes_toList]
  rfl

theorem pathText_snoc (path : List String) (key : String) :
    pathText (path ++ [key]) = pathText path ++ lit "->" ++ keyText key := by
  simp only [pathText, stepsText, flatMap_append, flatMap_cons, flatMap_nil, append_nil,
    append_assoc]

/-- The rendered pairs, joined. -/
theorem joined_text (texts : List String) (pairs : List (String × Expr))
    (h : List.Forall₂ (fun text pair => text.toList = keyText pair.1 ++ lit ", " ++ pair.2.text) texts pairs) :
    (String.intercalate "," texts).toList = Expr.pairsText pairs := by
  induction h with
  | nil =>
    rw [String.intercalate_nil]
    rfl
  | @cons text pair texts pairs htext hrest ih =>
    cases hrest with
    | nil =>
      rw [String.intercalate_singleton, htext, Expr.pairsText, Expr.moreText, append_nil]
    | @cons next after texts pairs _ _ =>
      rw [String.intercalate_cons_cons, String.toList_append, String.toList_append, ih, htext]
      simp only [Expr.pairsText, Expr.moreText, append_assoc, cons_append]
      rfl

theorem buildObject_text (texts : List String) (pairs : List (String × Expr))
    (h : List.Forall₂ (fun text pair => text.toList = keyText pair.1 ++ lit ", " ++ pair.2.text) texts pairs) :
    ("jsonb_build_object(" ++ String.intercalate "," texts ++ ")").toList = (Expr.buildObject pairs).text := by
  rw [String.toList_append, String.toList_append, joined_text texts pairs h, Expr.text]
  rfl

theorem direct_text (name key path : String) (kind : FieldKind) (steps : List String)
    (hpath : path.toList = pathText steps) :
    ("'" ++ escapeQuotes name ++ "', " ++ path ++ (if kind = .text then "->>" else "->") ++ "'" ++
      escapeQuotes key ++ "'").toList =
      keyText name ++ lit ", " ++
        (if kind = .text then Expr.memberText steps key else .member (steps ++ [key])).text := by
  have hkey := keyText_eq key
  have hname := keyText_eq name
  split_ifs with hkind
  · simp only [Expr.text, hkey, hname, String.toList_append, hpath, append_assoc]
    rfl
  · simp only [Expr.text, pathText_snoc, hkey, hname, String.toList_append, hpath, append_assoc]
    rfl

mutual

theorem renderField_text (path : String) (steps : List String) (hpath : path.toList = pathText steps)
    (depth : Nat) : ∀ field : ProjectionField, (renderField cc path depth field).toList =
      keyText (fieldPair cc steps depth field).1 ++ lit ", " ++ (fieldPair cc steps depth field).2.text
  | .mk name kind none | .mk name kind (some []) => by
    simp only [renderField, fieldPair]
    exact direct_text name _ path kind steps hpath
  | .mk name kind (some (sub :: subs)) => by
    rw [renderField, fieldPair]
    by_cases hdepth : depth < maxDepth
    · have hkey := keyText_eq (WhereFilter.toSnakeCase cc name)
      have hstep : (path ++ "->'" ++ escapeQuotes (WhereFilter.toSnakeCase cc name) ++ "'").toList =
          pathText (steps ++ [WhereFilter.toSnakeCase cc name]) := by
        simp only [pathText_snoc, hkey, String.toList_append, hpath, append_assoc]
        rfl
      have hbuild := buildObject_text _ _ (renderFields_text _ _ hstep (depth + 1) (sub :: subs))
      have hname := keyText_eq name
      simp only [hdepth, if_true, ← hbuild, hname, String.toList_append, append_assoc]
      rfl
    · simp only [hdepth, if_false]
      exact direct_text name _ path kind steps hpath

theorem renderFields_text (path : String) (steps : List String) (hpath : path.toList = pathText steps)
    (depth : Nat) : ∀ fields : List ProjectionField, List.Forall₂
      (fun text pair => text.toList = keyText pair.1 ++ lit ", " ++ pair.2.text)
      (renderFields cc path depth fields) (fieldPairs cc steps depth fields)
  | [] => .nil
  | field :: fields =>
    .cons (renderField_text path steps hpath depth field) (renderFields_text path steps hpath depth fields)

end

/-- The SQL of a typed projection is the text of its expression. -/
theorem generateTypedProjectionSql_eq (fields : List ProjectionField) :
    generateTypedProjectionSql cc fields = String.ofList (typedProjection cc fields).text := by
  refine String.toList_inj.mp ?_
  rw [String.toList_ofList, generateTypedProjectionSql, typedProjection]
  split_ifs with hempty
  · rfl
  · exact buildObject_text _ _ (renderFields_text cc "\"data\"" [] rfl 0 fields)

end Projection

end FraiseQL.Jsonb
