import FraiseQL.QueryPipeline

/-! A root of a query, written back as text and read again. The serializer leaves out directives and fragment
definitions, writes an inline fragment without a type condition as one with an empty one, and writes argument
values from their stored JSON. A root that survives this is portable: what its text is read as differs from it
only in ways the matcher does not see, so running it in parallel gives what running it alone gives. -/

namespace FraiseQL.Graphql

open ParsedSelection Selection List

/-! ### The text of a syntax tree -/

mutual

/-- A value in GraphQL syntax. Inside an object the serializer sets blanks and writes floats as JSON does. -/
def Value.print (inObject : Bool) : Value → String
  | .variable v => "$" ++ v.text
  | .int n => toString n
  | .float f => if inObject then f.json.text else f.display
  | .string s => "\"" ++ escapeDoubleQuotes s ++ "\""
  | .boolean b => toString b
  | .null => "null"
  | .enum e => e.text
  | .list items => "[" ++ String.intercalate (if inObject then ", " else ",") (printItems inObject items) ++ "]"
  | .object entries => "\x7b" ++ String.intercalate ", " (printEntries entries) ++ "\x7d"

def printItems (inObject : Bool) : List Value → List String
  | [] => []
  | item :: items => Value.print inObject item :: printItems inObject items

def printEntries : List (Name × Value) → List String
  | [] => []
  | (k, v) :: entries => (k.text ++ ": " ++ Value.print true v) :: printEntries entries

end

def printArguments (arguments : List (Name × Value)) : String :=
  if arguments.isEmpty then ""
  else "(" ++ String.intercalate ", " (arguments.map fun (k, v) => k.text ++ ": " ++ v.print false) ++ ")"

def Directive.print (directive : Directive) : String :=
  " @" ++ directive.name.text ++ printArguments directive.arguments

def printDirectives (directives : List Directive) : String := String.join (directives.map Directive.print)

mutual

def Selection.print : Selection → String
  | .field aliasName name arguments directives selectionSet =>
    (match aliasName with
      | some aliasName => aliasName.text ++ ": "
      | none => "") ++ name.text ++ printArguments arguments ++ printDirectives directives ++
      (if selectionSet.isEmpty then ""
        else " \x7b " ++ String.intercalate " " (printSelections selectionSet) ++ " \x7d")
  | .fragmentSpread fragmentName directives => "..." ++ fragmentName.text ++ printDirectives directives
  | .inlineFragment typeCondition directives selectionSet =>
    (match typeCondition with
      | some name => "...on " ++ name.text
      | none => "...") ++ printDirectives directives ++
      (if selectionSet.isEmpty then ""
        else " \x7b " ++ String.intercalate " " (printSelections selectionSet) ++ " \x7d")

def printSelections : List Selection → List String
  | [] => []
  | sel :: sels => Selection.print sel :: printSelections sels

end

/-- The text of a query with one root. -/
def queryText (sel : Selection) : String := "\x7b " ++ sel.print ++ " \x7d"

/-- The document of such a query. -/
def queryDocument (sel : Selection) : Document := ⟨[.operation [sel]]⟩

/-! ### What a root is read as -/

/-- A float that is printed as an integer. -/
def Double.asInt? (f : Double) : Option Int64 :=
  (parseI64 f.display).bind fun n => if toString (Int64.ofInt n) = f.display then some (Int64.ofInt n) else none

mutual

/-- A value read from its JSON: names inside it have become strings. -/
def asLiteral : Value → Value
  | .variable v => .string ("$" ++ v.text)
  | .enum e => .string e.text
  | .float f => match f.asInt? with
    | some n => .int n
    | none => .float f
  | .list items => .list (itemsAsLiteral items)
  | .object entries => .object (entriesAsLiteral entries)
  | v => v

def itemsAsLiteral : List Value → List Value
  | [] => []
  | item :: items => asLiteral item :: itemsAsLiteral items

def entriesAsLiteral : List (Name × Value) → List (Name × Value)
  | [] => []
  | (k, v) :: entries => (k, asLiteral v) :: entriesAsLiteral entries

end

/-- Values nested too deep are stored as `null`. -/
def tooDeep (v : Value) : Bool := (serializeValueInner 0 v).isNone

def rereadArg (v : Value) : Value :=
  if tooDeep v then .null
  else match v with
    | .variable _ | .enum _ => v
    | _ => asLiteral v

mutual

def reread : Selection → Selection
  | .field aliasName name arguments _ selectionSet =>
    .field aliasName name (arguments.map fun (k, v) => (k, rereadArg v)) [] (rereadAll selectionSet)
  | .fragmentSpread fragmentName _ => .fragmentSpread fragmentName []
  | .inlineFragment typeCondition _ selectionSet => .inlineFragment typeCondition [] (rereadAll selectionSet)

def rereadAll : List Selection → List Selection
  | [] => []
  | sel :: sels => reread sel :: rereadAll sels

end

/-! ### Portable roots -/

/-- Nothing in the string ends or escapes it. -/
def plainText (s : String) : Bool := s.toList.all fun c => c != '\\' && decide (' ' ≤ c)

/-- A float that JSON reads as an integer above the `i64` range. -/
def Double.isWide (f : Double) : Bool := ((parseDigits f.display.toList).map fun n => decide (n < 2 ^ 64)).getD false

mutual

/-- A value whose written form is read as the same JSON. In a list, objects keep the quotes around their keys
and cannot be read; in an object, strings are written without escapes. -/
def Value.portable (inObject : Bool) : Value → Bool
  | .string s => plainText s && (!inObject || !s.toList.contains '"')
  | .float f =>
    f.asInt?.isSome || (if inObject then !f.isWide else f.display.toList.contains '.')
  | .list items => portableItems inObject items
  | .object entries => inObject && portableEntries entries
  | _ => true

def portableItems (inObject : Bool) : List Value → Bool
  | [] => true
  | item :: items => item.portable inObject && portableItems inObject items

def portableEntries : List (Name × Value) → Bool
  | [] => true
  | (_, v) :: entries => v.portable true && portableEntries entries

end

def portableArg (v : Value) : Bool :=
  tooDeep v || match v with
    | .object entries => portableEntries entries
    | v => v.portable false

mutual

/-- A selection whose inline fragments have a type condition and whose arguments can be written back. -/
def Selection.writable : Selection → Bool
  | .field _ _ arguments _ selectionSet => arguments.all (fun (_, v) => portableArg v) && allWritable selectionSet
  | .fragmentSpread _ _ => true
  | .inlineFragment typeCondition _ selectionSet => typeCondition.isSome && allWritable selectionSet

def allWritable : List Selection → Bool
  | [] => true
  | sel :: sels => sel.writable && allWritable sels

end

section Portable

variable (fromStr : String → Option Json) (vars : List (String × Json))

/-- All directives let the selection stay. -/
def keeps (directives : List Directive) : Bool :=
  match evaluateDirectives fromStr vars (directives.map parseDirective) with
  | .ok keep => keep
  | .error _ => false

mutual

/-- A selection without named spreads, whose directives let all of it stay. -/
def Selection.stays : Selection → Bool
  | .field _ _ _ directives selectionSet => keeps fromStr vars directives && allStay selectionSet
  | .fragmentSpread _ _ => false
  | .inlineFragment _ directives selectionSet => keeps fromStr vars directives && allStay selectionSet

def allStay : List Selection → Bool
  | [] => true
  | sel :: sels => sel.stays && allStay sels

end

/-- A root that is read back as the matcher saw it. -/
def Selection.portable (sel : Selection) : Bool := sel.stays fromStr vars && sel.writable

end Portable

/-! ### The JSON of a value -/

mutual

/-- The JSON a stored value is the text of. -/
def jsonOf : Value → Json
  | .variable v => .str ("$" ++ v.text)
  | .enum e => .str e.text
  | .string s => .str s
  | .int n => .num (.int ⟨n.toInt, n.le_toInt, n.toInt_lt.trans (by decide)⟩)
  | .float f => match f.asInt? with
    | some n => .num (.int ⟨n.toInt, n.le_toInt, n.toInt_lt.trans (by decide)⟩)
    | none => .num (.float f.json)
  | .boolean b => .bool b
  | .null => .null
  | .list items => .arr (jsonItems items)
  | .object entries => .obj (jsonEntries entries)

def jsonItems : List Value → List Json
  | [] => []
  | item :: items => jsonOf item :: jsonItems items

def jsonEntries : List (Name × Value) → List (String × Json)
  | [] => []
  | (k, v) :: entries => (k.text, jsonOf v) :: jsonEntries entries

end

def argJson (v : Value) : Json := if tooDeep v then .null else jsonOf v

/-! ### Values are written and read back -/

theorem escapeDoubleQuotes_plain {s : String} (h : '"' ∉ s.toList) : escapeDoubleQuotes s = s := by
  have hchars : ∀ cs : List Char, '"' ∉ cs → (cs.flatMap fun c => if c = '"' then ['\\', '"'] else [c]) = cs := by
    intro cs
    induction cs with
    | nil => exact fun _ => rfl
    | cons c cs ih =>
      intro hcs
      rw [mem_cons, not_or] at hcs
      rw [flatMap_cons, if_neg (Ne.symm hcs.1), ih hcs.2]
      rfl
  rw [escapeDoubleQuotes, hchars _ h, String.ofList_toList]

variable (name : Name)

theorem Name.quote_notMem : '"' ∉ name.text.toList := by
  intro hmem
  have hchar := all_eq_true.mp name.valid _ hmem
  revert hchar
  decide

theorem escapeDoubleQuotes_name : escapeDoubleQuotes name.text = name.text :=
  escapeDoubleQuotes_plain name.quote_notMem

theorem escapeDoubleQuotes_variable : escapeDoubleQuotes ("$" ++ name.text) = "$" ++ name.text := by
  refine escapeDoubleQuotes_plain ?_
  rw [String.toList_append]
  intro hmem
  rcases mem_append.mp hmem with hmem | hmem
  · revert hmem
    decide
  · exact name.quote_notMem hmem

theorem Double.asInt?_text {f : Double} {n : Int64} (h : f.asInt? = some n) : toString n = f.display := by
  rw [Double.asInt?, Option.bind_eq_some_iff] at h
  obtain ⟨m, _, hm⟩ := h
  split_ifs at hm with htext
  exact Option.some.inj hm ▸ htext

mutual

/-- A value read from its JSON is stored as the same JSON. -/
theorem serialize_asLiteral : ∀ (v : Value) (depth : Nat),
    serializeValueInner depth (asLiteral v) = serializeValueInner depth v
  | .variable v, depth => by
    rw [asLiteral, serializeValueInner, serializeValueInner, escapeDoubleQuotes_variable, ← String.append_assoc]
    rfl
  | .enum e, depth => by
    rw [asLiteral, serializeValueInner, serializeValueInner, escapeDoubleQuotes_name]
  | .float f, depth => by
    rw [asLiteral]
    cases hint : f.asInt? with
    | none => rfl
    | some n =>
      dsimp only
      rw [serializeValueInner, serializeValueInner, Double.asInt?_text hint]
  | .list items, depth => by
    rw [asLiteral, serializeValueInner, serializeValueInner, serializeItems_asLiteral items]
  | .object entries, depth => by
    rw [asLiteral, serializeValueInner, serializeValueInner, serializeEntries_asLiteral entries]
  | .int _, _ => rfl
  | .string _, _ => rfl
  | .boolean _, _ => rfl
  | .null, _ => rfl

theorem serializeItems_asLiteral : ∀ (items : List Value) (depth : Nat),
    serializeItems depth (itemsAsLiteral items) = serializeItems depth items
  | [], _ => rfl
  | item :: items, depth => by
    rw [itemsAsLiteral, serializeItems, serializeItems, serialize_asLiteral item,
      serializeItems_asLiteral items]

theorem serializeEntries_asLiteral : ∀ (entries : List (Name × Value)) (depth : Nat),
    serializeEntries depth (entriesAsLiteral entries) = serializeEntries depth entries
  | [], _ => rfl
  | (k, v) :: entries, depth => by
    rw [entriesAsLiteral, serializeEntries, serializeEntries, serialize_asLiteral v,
      serializeEntries_asLiteral entries]

end

theorem serializeValue_rereadArg (v : Value) : serializeValue (rereadArg v) = serializeValue v := by
  unfold rereadArg
  split_ifs with hdeep
  · rw [tooDeep, Option.isNone_iff_eq_none] at hdeep
    rw [serializeValue, serializeValue, hdeep]
    rfl
  · split
    · rfl
    · rfl
    · rw [serializeValue, serialize_asLiteral, ← serializeValue]

mutual

/-- The stored text of a portable value is its text in GraphQL syntax. -/
theorem print_serialized : ∀ (v : Value) (depth : Nat) (text : String), v.portable false = true →
    serializeValueInner depth v = some text → text = (asLiteral v).print false
  | .variable v, depth, text, _, htext => by
    rw [serializeValueInner] at htext
    split_ifs at htext
    rw [← Option.some.inj htext, asLiteral, Value.print, escapeDoubleQuotes_variable, ← String.append_assoc]
    rfl
  | .enum e, depth, text, _, htext => by
    rw [serializeValueInner] at htext
    split_ifs at htext
    rw [← Option.some.inj htext, asLiteral, Value.print, escapeDoubleQuotes_name]
  | .float f, depth, text, _, htext => by
    rw [serializeValueInner] at htext
    split_ifs at htext
    rw [← Option.some.inj htext, asLiteral]
    cases hint : f.asInt? with
    | none => rfl
    | some n => exact (Double.asInt?_text hint).symm
  | .list items, depth, text, hportable, htext => by
    rw [serializeValueInner] at htext
    split_ifs at htext
    obtain ⟨parts, hparts, rfl⟩ := Option.map_eq_some_iff.mp htext
    rw [asLiteral, Value.print, print_serializedItems items (depth + 1) parts hportable hparts]
    rfl
  | .object entries, _, _, hportable, _ => Bool.noConfusion hportable
  | .int n, depth, text, _, htext | .string s, depth, text, _, htext | .boolean b, depth, text, _, htext
  | .null, depth, text, _, htext => by
    rw [serializeValueInner] at htext
    split_ifs at htext
    exact (Option.some.inj htext).symm

theorem print_serializedItems : ∀ (items : List Value) (depth : Nat) (parts : List String),
    portableItems false items = true → serializeItems depth items = some parts →
      parts = printItems false (itemsAsLiteral items)
  | [], _, parts, _, hparts => (Option.some.inj hparts).symm
  | item :: items, depth, parts, hportable, hparts => by
    rw [portableItems, Bool.and_eq_true] at hportable
    rw [serializeItems] at hparts
    obtain ⟨part, hpart, htail⟩ := Option.bind_eq_some_iff.mp hparts
    obtain ⟨rest, hrest, rfl⟩ := Option.map_eq_some_iff.mp htail
    rw [itemsAsLiteral, printItems, print_serialized item depth part hportable.1 hpart,
      print_serializedItems items depth rest hportable.2 hrest]

end

mutual

/-- The JSON of a portable value inside an object is written as the value in GraphQL syntax. -/
theorem jsonValueToGraphql_jsonOf : ∀ v : Value, v.portable true = true →
    jsonValueToGraphql (jsonOf v) = (asLiteral v).print true
  | .variable v, _ => by
    rw [jsonOf, asLiteral, jsonValueToGraphql, Value.print, escapeDoubleQuotes_variable]
  | .enum e, _ => by
    rw [jsonOf, asLiteral, jsonValueToGraphql, Value.print, escapeDoubleQuotes_name]
  | .string s, hportable => by
    have hquote : '"' ∉ s.toList := by
      rw [Value.portable, Bool.and_eq_true] at hportable
      simpa using hportable.2
    rw [jsonOf, asLiteral, jsonValueToGraphql, Value.print, escapeDoubleQuotes_plain hquote]
    · exact fun _ h => nomatch h
    · exact fun _ h => nomatch h
    · exact fun _ h => nomatch h
    · exact fun _ h => nomatch h
    · exact fun _ h => nomatch h
  | .float f, _ => by
    rw [jsonOf, asLiteral]
    cases hint : f.asInt? with
    | none => rfl
    | some n => rfl
  | .list items, hportable => by
    rw [jsonOf, asLiteral, jsonValueToGraphql, Value.print, jsonItemsToGraphql_jsonItems items hportable]
    rfl
  | .object entries, hportable => by
    rw [jsonOf, asLiteral, jsonValueToGraphql, Value.print, jsonEntriesToGraphql_jsonEntries entries hportable]
  | .int _, _ => rfl
  | .boolean _, _ => rfl
  | .null, _ => rfl

theorem jsonItemsToGraphql_jsonItems : ∀ items : List Value, portableItems true items = true →
    jsonItemsToGraphql (jsonItems items) = printItems true (itemsAsLiteral items)
  | [], _ => rfl
  | item :: items, hportable => by
    rw [portableItems, Bool.and_eq_true] at hportable
    rw [jsonItems, itemsAsLiteral, jsonItemsToGraphql, printItems, jsonValueToGraphql_jsonOf item hportable.1,
      jsonItemsToGraphql_jsonItems items hportable.2]

theorem jsonEntriesToGraphql_jsonEntries : ∀ entries : List (Name × Value), portableEntries entries = true →
    jsonEntriesToGraphql (jsonEntries entries) = printEntries (entriesAsLiteral entries)
  | [], _ => rfl
  | (k, v) :: entries, hportable => by
    rw [portableEntries, Bool.and_eq_true] at hportable
    rw [jsonEntries, entriesAsLiteral, jsonEntriesToGraphql, printEntries,
      jsonValueToGraphql_jsonOf v hportable.1, jsonEntriesToGraphql_jsonEntries entries hportable.2]

end

/-- The values the serializer reads back from their JSON. -/
def readsJson : Value → Bool
  | .variable _ | .enum _ | .object _ => true
  | _ => false

theorem serializeValue_eq_print {v : Value} (hplain : readsJson v = false) (hportable : portableArg v = true) :
    serializeValue v = (rereadArg v).print false := by
  unfold rereadArg
  split_ifs with hdeep
  · rw [tooDeep, Option.isNone_iff_eq_none] at hdeep
    rw [serializeValue, hdeep]
    rfl
  · have hvalue : v.portable false = true := by
      unfold portableArg at hportable
      rw [Bool.eq_false_iff.mpr hdeep, Bool.false_or] at hportable
      split at hportable
      · cases hplain
      · exact hportable
    rw [tooDeep, Option.isNone_iff_eq_none] at hdeep
    obtain ⟨text, htext⟩ := Option.ne_none_iff_exists'.mp hdeep
    split
    · cases hplain
    · cases hplain
    · rw [serializeValue, htext]
      exact print_serialized v 0 text hvalue htext

/-- An argument is written as the value it is read as. -/
theorem argValueToGraphql_eq (fromStr : String → Option Json) (name : Name) : ∀ v : Value,
    portableArg v = true → (readsJson v = true → fromStr (serializeValue v) = some (argJson v)) →
      argValueToGraphql fromStr (toArgument (name, v)) = (rereadArg v).print false
  | .variable x, _, hjson => by
    show unquoted fromStr (serializeValue (.variable x)) = _
    rw [unquoted, hjson rfl]
    rfl
  | .enum e, _, hjson => by
    show unquoted fromStr (serializeValue (.enum e)) = _
    rw [unquoted, hjson rfl]
    rfl
  | .object entries, hportable, hjson => by
    unfold argValueToGraphql
    dsimp only [toArgument, valueType]
    rw [hjson rfl]
    unfold rereadArg argJson
    dsimp only
    by_cases hdeep : tooDeep (.object entries) = true
    · rw [if_pos hdeep, if_pos hdeep]
      rfl
    · rw [portableArg, Bool.eq_false_iff.mpr hdeep, Bool.false_or] at hportable
      rw [if_neg hdeep, if_neg hdeep, jsonOf, asLiteral, jsonValueToGraphql, Value.print,
        jsonEntriesToGraphql_jsonEntries entries hportable]
  | .int _, hportable, _ => serializeValue_eq_print rfl hportable
  | .float _, hportable, _ => serializeValue_eq_print rfl hportable
  | .string _, hportable, _ => serializeValue_eq_print rfl hportable
  | .boolean _, hportable, _ => serializeValue_eq_print rfl hportable
  | .null, hportable, _ => serializeValue_eq_print rfl hportable
  | .list _, hportable, _ => serializeValue_eq_print rfl hportable

/-! ### Selections are written and read back -/

mutual

/-- The argument values of a selection and of those under it. -/
def Selection.values : Selection → List Value
  | .field _ _ arguments _ selectionSet => arguments.map (·.2) ++ selectionValues selectionSet
  | .fragmentSpread _ _ => []
  | .inlineFragment _ _ selectionSet => selectionValues selectionSet

def selectionValues : List Selection → List Value
  | [] => []
  | sel :: sels => sel.values ++ selectionValues sels

end

/-- `from_str` reads the stored texts among the values. -/
def ReadsValues (fromStr : String → Option Json) (values : List Value) : Prop :=
  ∀ v ∈ values, readsJson v = true → fromStr (serializeValue v) = some (argJson v)

section Serializer

variable {fromStr : String → Option Json}

theorem serializeArguments_eq (arguments : List (Name × Value))
    (hportable : arguments.all (fun (_, v) => portableArg v) = true)
    (hjson : ReadsValues fromStr (arguments.map (·.2))) :
    (if (arguments.map toArgument).isEmpty then ""
      else "(" ++ String.intercalate ", " ((arguments.map toArgument).map (serializeArg fromStr)) ++ ")") =
      printArguments (arguments.map fun (k, v) => (k, rereadArg v)) := by
  have hargs : (arguments.map toArgument).map (serializeArg fromStr) =
      (arguments.map fun (k, v) => (k, rereadArg v)).map fun (k, v) => k.text ++ ": " ++ v.print false := by
    rw [map_map, map_map]
    refine map_congr_left ?_
    rintro ⟨k, v⟩ hmem
    have hv := all_eq_true.mp hportable _ hmem
    show k.text ++ ": " ++ argValueToGraphql fromStr (toArgument (k, v)) = _
    rw [argValueToGraphql_eq fromStr k v hv (hjson v (mem_map_of_mem hmem))]
    rfl
  rw [printArguments, hargs, isEmpty_map, isEmpty_map]

theorem isEmpty_parseSelectionSet (sels : List Selection) :
    (parseSelectionSet sels).isEmpty = (rereadAll sels).isEmpty := by
  cases sels <;> rfl

mutual

/-- A selection that can be written back is written as the selection it is read as. -/
theorem serializeField_eq : ∀ sel : Selection, sel.writable = true → ReadsValues fromStr sel.values →
    serializeField fromStr (parseSelection sel) = (reread sel).print
  | .field aliasName name arguments directives selectionSet, hwritable, hjson => by
    rw [writable, Bool.and_eq_true] at hwritable
    have harguments := serializeArguments_eq arguments hwritable.1
      fun v hmem => hjson v (mem_append_left _ hmem)
    have hselections := serializeFields_eq selectionSet hwritable.2
      fun v hmem => hjson v (mem_append_right _ hmem)
    cases aliasName with
    | none =>
      simp only [parseSelection, Option.map_none, serializeField, reread, print, harguments,
        hselections, isEmpty_parseSelectionSet]
      simp [printDirectives]
    | some aliasName =>
      simp only [parseSelection, Option.map_some, serializeField, reread, print, harguments,
        hselections, isEmpty_parseSelectionSet]
      simp [printDirectives]
  | .fragmentSpread fragmentName directives, _, _ => by
    simp [parseSelection, serializeField, reread, print, printDirectives]
  | .inlineFragment none directives selectionSet, hwritable, _ => by
    simp [writable] at hwritable
  | .inlineFragment (some name) directives selectionSet, hwritable, hjson => by
    rw [writable, Bool.and_eq_true] at hwritable
    have hselections := serializeFields_eq selectionSet hwritable.2 hjson
    simp only [parseSelection, serializeField, reread, print, hselections, isEmpty_parseSelectionSet]
    simp [printDirectives]

theorem serializeFields_eq : ∀ sels : List Selection, allWritable sels = true →
    ReadsValues fromStr (selectionValues sels) →
      serializeFields fromStr (parseSelectionSet sels) = printSelections (rereadAll sels)
  | [], _, _ => rfl
  | sel :: sels, hwritable, hjson => by
    rw [allWritable, Bool.and_eq_true] at hwritable
    rw [parseSelectionSet, serializeFields, rereadAll, printSelections,
      serializeField_eq sel hwritable.1 fun v hmem => hjson v (mem_append_left _ hmem),
      serializeFields_eq sels hwritable.2 fun v hmem => hjson v (mem_append_right _ hmem)]

end

end Serializer

theorem toArgument_rereadArg (arg : Name × Value) :
    (fun a : GraphQLArgument => (a.name, a.valueJson)) (toArgument (arg.1, rereadArg arg.2)) =
      (fun a : GraphQLArgument => (a.name, a.valueJson)) (toArgument arg) := by
  show (arg.1.text, serializeValue (rereadArg arg.2)) = _
  rw [serializeValue_rereadArg]
  rfl

mutual

/-- What the matcher sees of a selection is unchanged when it is read back. -/
theorem erase_reread : ∀ sel : Selection, (parseSelection (reread sel)).erase = (parseSelection sel).erase
  | .field aliasName name arguments directives selectionSet => by
    have hargs : ((arguments.map fun (k, v) => (k, rereadArg v)).map toArgument).map
        (fun a => (a.name, a.valueJson)) = (arguments.map toArgument).map (fun a => (a.name, a.valueJson)) := by
      rw [map_map, map_map, map_map]
      exact map_congr_left fun arg _ => toArgument_rereadArg arg
    rw [reread, parseSelection, parseSelection, erase, erase, hargs,
      eraseAll_rereadAll selectionSet]
  | .fragmentSpread _ _ => rfl
  | .inlineFragment typeCondition directives selectionSet => by
    rw [reread, parseSelection, parseSelection, erase, erase,
      eraseAll_rereadAll selectionSet]

theorem eraseAll_rereadAll : ∀ sels : List Selection,
    eraseAll (parseSelectionSet (rereadAll sels)) =
      eraseAll (parseSelectionSet sels)
  | [] => rfl
  | sel :: sels => by
    rw [rereadAll, parseSelectionSet, parseSelectionSet, eraseAll, eraseAll,
      erase_reread sel, eraseAll_rereadAll sels]

end

/-! ### Fragments and directives -/

/-- A named fragment spread. -/
def isSpread (name : String) : Bool :=
  match stripStart ['.', '.', '.'] name with
  | none => false
  | some fragmentName => !(['o', 'n', ' '].isPrefixOf fragmentName.toList)

mutual

def spreadFree : ParsedSelection → Bool
  | .mk name _ _ nestedFields _ => !isSpread name && spreadFreeAll nestedFields

def spreadFreeAll : List ParsedSelection → Bool
  | [] => true
  | sel :: sels => spreadFree sel && spreadFreeAll sels

end

/-- Selections are nested at most so many levels. -/
def within : Nat → List FieldSelection → Bool
  | 0, _ => false
  | levels + 1, sels => sels.all fun sel => sel.nestedFields.isEmpty || within levels sel.nestedFields

def depthExceeded : String := "Fragment depth exceeded (max: " ++ toString maxFragmentDepth ++ ")"

theorem mapM_guarded {α : Type} (p : α → Bool) (e : String) (as : List α) :
    as.mapM (fun a => if p a then Except.ok [a] else Except.error e) =
      if as.all p then .ok (as.map fun a => [a]) else .error e := by
  induction as with
  | nil => rfl
  | cons a as ih =>
    rw [mapM_cons, ih, all_cons]
    cases hp : p a with
    | false => rfl
    | true =>
      cases hall : as.all p with
      | false => rfl
      | true => rfl

theorem mapM_congr {α β : Type} {m : Type → Type} [Monad m] {f g : α → m β} {as : List α}
    (h : ∀ a ∈ as, f a = g a) : as.mapM f = as.mapM g := by
  have hloop : ∀ (as : List α) (acc : List β), (∀ a ∈ as, f a = g a) →
      mapM.loop f as acc = mapM.loop g as acc := by
    intro as
    induction as with
    | nil => exact fun _ _ => rfl
    | cons a as ih =>
      intro acc h
      rw [mapM.loop, mapM.loop, h a mem_cons_self]
      congr 1
      funext b
      exact ih _ fun a hmem => h a (mem_cons_of_mem _ hmem)
  exact hloop as [] h

theorem nestedFields_erase (sel : ParsedSelection) :
    sel.erase.nestedFields = eraseAll sel.nestedFields := by
  cases sel
  rfl

theorem isEmpty_eraseAll (sels : List ParsedSelection) :
    (eraseAll sels).isEmpty = sels.isEmpty := by
  cases sels <;> rfl

theorem all_eraseAll (p : FieldSelection → Bool) (sels : List ParsedSelection) :
    (eraseAll sels).all p = sels.all fun sel => p sel.erase := by
  induction sels with
  | nil => rfl
  | cons sel sels ih => rw [eraseAll, all_cons, all_cons, ih]

variable {sel : ParsedSelection}

theorem spreadFree_of_mem {sels : List ParsedSelection} (h : spreadFreeAll sels = true)
    (hmem : sel ∈ sels) : isSpread sel.name = false ∧ spreadFreeAll sel.nestedFields = true := by
  induction sels with
  | nil => cases hmem
  | cons first sels ih =>
    rw [spreadFreeAll, Bool.and_eq_true] at h
    rcases mem_cons.mp hmem with rfl | hmem
    · obtain ⟨name, aliasName, arguments, nestedFields, directives⟩ := sel
      rw [spreadFree, Bool.and_eq_true, Bool.not_eq_true'] at h
      exact h.1
    · exact ih h.2 hmem

/-- A selection that is no named spread is kept, with what is under it resolved. -/
theorem resolveSelection_field (fragments : List FragmentDefinition)
    (deeper : List String → List ParsedSelection → Except String (List ParsedSelection)) (visited : List String)
    (h : isSpread sel.name = false) :
    resolveSelection fragments deeper visited sel =
      if sel.nestedFields.isEmpty then .ok [sel]
      else (deeper visited sel.nestedFields).map fun nested =>
        [.mk sel.name sel.aliasName sel.arguments nested sel.directives] := by
  rw [isSpread] at h
  unfold resolveSelection
  cases hstrip : stripStart ['.', '.', '.'] sel.name with
  | none => rfl
  | some fragmentName =>
    rw [hstrip] at h
    dsimp only at h ⊢
    rw [Bool.not_eq_false'] at h
    rw [if_pos h]

/-- Without named spreads, resolution only bounds the depth. -/
theorem resolveSelections_spreadFree (fragments : List FragmentDefinition) (levels : Nat) (visited : List String)
    (sels : List ParsedSelection) (h : spreadFreeAll sels = true) :
    resolveSelections fragments levels visited sels =
      if within levels (eraseAll sels) then .ok sels else .error depthExceeded := by
  induction levels generalizing visited sels with
  | zero => rfl
  | succ levels ih =>
    have hsel : ∀ sel ∈ sels, resolveSelection fragments (resolveSelections fragments levels) visited sel =
        if sel.erase.nestedFields.isEmpty || within levels sel.erase.nestedFields then .ok [sel]
        else .error depthExceeded := by
      intro sel hmem
      obtain ⟨hname, hnested⟩ := spreadFree_of_mem h hmem
      rw [resolveSelection_field _ _ _ hname, nestedFields_erase, isEmpty_eraseAll, ih visited _ hnested]
      cases sel.nestedFields.isEmpty with
      | true => rfl
      | false =>
        rw [Bool.false_or, if_neg Bool.false_ne_true]
        by_cases hwithin : within levels (eraseAll sel.nestedFields) = true
        · rw [if_pos hwithin, if_pos hwithin]
          cases sel
          rfl
        · rw [if_neg hwithin, if_neg hwithin]
          rfl
    rw [resolveSelections, mapM_congr hsel, mapM_guarded, within, all_eraseAll]
    split_ifs with hall
    · exact congrArg Except.ok (flatMap_singleton' sels)
    · rfl

/-! ### Selections that stay -/

theorem stripStart_name : stripStart ['.', '.', '.'] name.text = none := by
  rw [stripStart, if_neg]
  intro hstart
  obtain ⟨rest, hrest⟩ := isPrefixOf_iff_prefix.mp hstart
  have hdot := all_eq_true.mp name.valid '.' (by rw [← hrest]; simp)
  revert hdot
  decide

theorem isSpread_name : isSpread name.text = false := by
  rw [isSpread, stripStart_name]

theorem isSpread_inline (name : String) : isSpread ("...on " ++ name) = false := by
  have hchars : ("...on " ++ name).toList = ['.', '.', '.', 'o', 'n', ' '] ++ name.toList := by
    rw [String.toList_append]
    rfl
  rw [isSpread, stripStart, hchars]
  simp [isPrefixOf]

section Stays

variable {fromStr : String → Option Json} {vars : List (String × Json)}

mutual

theorem spreadFree_of_stays : ∀ sel : Selection, sel.stays fromStr vars = true →
    spreadFree (parseSelection sel) = true
  | .field aliasName name arguments directives selectionSet, h => by
    rw [stays, Bool.and_eq_true] at h
    rw [parseSelection, spreadFree, isSpread_name, spreadFreeAll_of_allStay selectionSet h.2]
    rfl
  | .fragmentSpread _ _, h => Bool.noConfusion h
  | .inlineFragment typeCondition directives selectionSet, h => by
    rw [stays, Bool.and_eq_true] at h
    rw [parseSelection, spreadFree, isSpread_inline, spreadFreeAll_of_allStay selectionSet h.2]
    rfl

theorem spreadFreeAll_of_allStay : ∀ sels : List Selection, allStay fromStr vars sels = true →
    spreadFreeAll (parseSelectionSet sels) = true
  | [], _ => rfl
  | sel :: sels, h => by
    rw [allStay, Bool.and_eq_true] at h
    rw [parseSelectionSet, spreadFreeAll, spreadFree_of_stays sel h.1, spreadFreeAll_of_allStay sels h.2]
    rfl

end

theorem evaluateDirectives_of_keeps {directives : List Directive} (h : keeps fromStr vars directives = true) :
    evaluateDirectives fromStr vars (directives.map parseDirective) = .ok true := by
  rw [keeps] at h
  split at h
  · rename_i keep heq
    rw [heq, h]
  · cases h

mutual

theorem filterSelection_of_stays : ∀ sel : Selection, sel.stays fromStr vars = true →
    filterSelection fromStr vars (parseSelection sel) = .ok (some (parseSelection sel))
  | .field aliasName name arguments directives selectionSet, h => by
    rw [stays, Bool.and_eq_true] at h
    rw [parseSelection, filterSelection, evaluateDirectives_of_keeps h.1]
    show (filterSelections fromStr vars (parseSelectionSet selectionSet)).map _ = _
    rw [filterSelections_of_allStay selectionSet h.2]
    rfl
  | .fragmentSpread _ _, h => Bool.noConfusion h
  | .inlineFragment typeCondition directives selectionSet, h => by
    rw [stays, Bool.and_eq_true] at h
    rw [parseSelection, filterSelection, evaluateDirectives_of_keeps h.1]
    show (filterSelections fromStr vars (parseSelectionSet selectionSet)).map _ = _
    rw [filterSelections_of_allStay selectionSet h.2]
    rfl

theorem filterSelections_of_allStay : ∀ sels : List Selection, allStay fromStr vars sels = true →
    filterSelections fromStr vars (parseSelectionSet sels) = .ok (parseSelectionSet sels)
  | [], _ => rfl
  | sel :: sels, h => by
    rw [allStay, Bool.and_eq_true] at h
    rw [parseSelectionSet, filterSelections, filterSelection_of_stays sel h.1]
    show (filterSelections fromStr vars (parseSelectionSet sels)).map _ = _
    rw [filterSelections_of_allStay sels h.2]
    rfl

end

mutual

theorem stays_reread : ∀ sel : Selection, sel.stays fromStr vars = true → (reread sel).stays fromStr vars = true
  | .field aliasName name arguments directives selectionSet, h => by
    rw [stays, Bool.and_eq_true] at h
    rw [reread, stays, allStay_rereadAll selectionSet h.2]
    rfl
  | .fragmentSpread _ _, h => Bool.noConfusion h
  | .inlineFragment typeCondition directives selectionSet, h => by
    rw [stays, Bool.and_eq_true] at h
    rw [reread, stays, allStay_rereadAll selectionSet h.2]
    rfl

theorem allStay_rereadAll : ∀ sels : List Selection, allStay fromStr vars sels = true →
    allStay fromStr vars (rereadAll sels) = true
  | [], _ => rfl
  | sel :: sels, h => by
    rw [allStay, Bool.and_eq_true] at h
    rw [rereadAll, allStay, stays_reread sel h.1, allStay_rereadAll sels h.2]
    rfl

end

end Stays

/-! ### Matching and running a root -/

/-- The selections of a root that stays: the root itself, unless it is nested too deep. -/
theorem finalSelections_alone (lib : Library) (vars : Option Json) (fragments : List FragmentDefinition)
    (rootField : String) {sel : Selection} (hstays : sel.stays lib.fromStr (variablesMap vars) = true) :
    finalSelections lib ⟨rootField, [parseSelection sel], fragments⟩ vars =
      if within (maxFragmentDepth + 1) [(parseSelection sel).erase] then .ok [(parseSelection sel).erase]
      else .error (.validation depthExceeded (some "fragments")) := by
  have hall : allStay lib.fromStr (variablesMap vars) [sel] = true := by
    rw [allStay, hstays]
    rfl
  have hresolve := resolveSelections_spreadFree fragments (maxFragmentDepth + 1) [] [parseSelection sel]
    (spreadFreeAll_of_allStay [sel] hall)
  have hfilter : filterSelections lib.fromStr (variablesMap vars) [parseSelection sel] = .ok [parseSelection sel] :=
    filterSelections_of_allStay [sel] hall
  rw [finalSelections, resolveSpreads, hresolve]
  show _ = if within (maxFragmentDepth + 1) (eraseAll [parseSelection sel]) = true then _ else _
  split_ifs with hwithin
  · show ((filterSelections lib.fromStr (variablesMap vars) [parseSelection sel]).mapError _ >>= _) = _
    rw [hfilter]
    rfl
  · rfl

theorem name_erase (sel : ParsedSelection) : sel.erase.name = sel.name := by
  cases sel
  rfl

/-- The text of a portable root is matched like the root. -/
theorem matchQuery_portable (lib : Library) (schema : CompiledSchema) (parsed : ParsedQuery) (vars : Option Json)
    {sel : Selection} (hportable : sel.portable lib.fromStr (variablesMap vars) = true)
    (hparse : lib.parseDocument (queryText (reread sel)) = .ok (queryDocument (reread sel)))
    (hjson : ReadsValues lib.fromStr sel.values) :
    matchQuery lib schema (fieldSelectionToQuery lib.fromStr (parseSelection sel)) vars =
      matchParsed lib schema (parsed.alone (parseSelection sel)) vars := by
  rw [portable, Bool.and_eq_true] at hportable
  obtain ⟨hstays, hwritable⟩ := hportable
  have hname : (parseSelection (reread sel)).name = (parseSelection sel).name := by
    rw [← name_erase, erase_reread, name_erase]
  have htext : fieldSelectionToQuery lib.fromStr (parseSelection sel) = queryText (reread sel) := by
    rw [fieldSelectionToQuery, serializeField_eq sel hwritable hjson, queryText]
  have hquery : parseQuery lib (queryText (reread sel)) =
      .ok ⟨(parseSelection sel).name, [parseSelection (reread sel)], []⟩ := by
    rw [parseQuery, hparse, ← hname]
    rfl
  rw [htext, matchQuery, hquery]
  show matchParsed lib schema _ vars = _
  rw [matchParsed, matchParsed, ParsedQuery.alone, finalSelections_alone lib vars _ _ (stays_reread sel hstays),
    finalSelections_alone lib vars _ _ hstays, erase_reread]

/-- What is relied on for a root: the parser reads the text of the root it is written as, and `from_str` the
stored values. -/
structure ReadBack (lib : Library) (sel : Selection) : Prop where
  parses : lib.parseDocument (queryText (reread sel)) = .ok (queryDocument (reread sel))
  values : ReadsValues lib.fromStr sel.values

theorem executeRegularQuery_portable (lib : Library) (x : Executor) (parsed : ParsedQuery) (vars : Option Json)
    {sel : Selection} (hportable : sel.portable lib.fromStr (variablesMap vars) = true) (hread : ReadBack lib sel) :
    (executor lib x).executeRegularQuery (fieldSelectionToQuery lib.fromStr (parseSelection sel)) vars =
      executeAlone lib x parsed vars (parseSelection sel) := by
  rw [executeRegularQuery_eq, executeAlone]
  show Traced.lift (matchQuery lib x.schema _ vars) >>= _ = _
  rw [matchQuery_portable lib x.schema parsed vars hportable hread.parses hread.values]

theorem mem_parseSelectionSet {sels : List Selection} (h : sel ∈ parseSelectionSet sels) :
    ∃ source ∈ sels, parseSelection source = sel := by
  induction sels with
  | nil => cases h
  | cons source sels ih =>
    rcases mem_cons.mp h with rfl | h
    · exact ⟨source, mem_cons_self, rfl⟩
    · obtain ⟨source, hmem, hsource⟩ := ih h
      exact ⟨source, mem_cons_of_mem _ hmem, hsource⟩

theorem selections_of_toParsedQuery {doc : Document} {parsed : ParsedQuery} {roots : List Selection}
    (hroots : doc.operation = some roots) (hparsed : toParsedQuery doc = .ok parsed) :
    parsed.selections = parseSelectionSet roots := by
  rw [toParsedQuery, hroots] at hparsed
  dsimp only at hparsed
  cases hset : parseSelectionSet roots with
  | nil =>
    rw [hset] at hparsed
    cases hparsed
  | cons sel sels =>
    rw [hset] at hparsed
    rw [← Except.ok.inj hparsed]

/-- A query with portable roots: the parallel run gives, under each root's response key, the data the root
gives when it is run alone. -/
theorem executeParallel_portable (lib : Library) (x : Executor) (vars : Option Json) (doc : Document)
    (roots : List Selection) (parsed : ParsedQuery) (hroots : doc.operation = some roots)
    (hparsed : toParsedQuery doc = .ok parsed) (hread : ∀ root ∈ roots, ReadBack lib root)
    (hportable : ∀ root ∈ roots, root.portable lib.fromStr (variablesMap vars) = true) :
    executeParallel lib x parsed vars = parsed.selections.mapM fun sel => do
      let response ← executeAlone lib x parsed vars sel
      return (sel.responseKey, dataAt sel.responseKey response) := by
  refine mapM_congr ?_
  intro sel hmem
  rw [selections_of_toParsedQuery hroots hparsed] at hmem
  obtain ⟨root, hroot, rfl⟩ := mem_parseSelectionSet hmem
  rw [executeRegularQuery_portable lib x parsed vars (hportable root hroot) (hread root hroot)]

/-! ### Users and posts -/

def field (name : Name) (directives : List Directive) (selectionSet : List Selection) : Selection :=
  .field none name [] directives selectionSet

def usersName : Name := ⟨"users", by decide⟩
def postsName : Name := ⟨"posts", by decide⟩
def idName : Name := ⟨"id", by decide⟩
def nameName : Name := ⟨"name", by decide⟩

/-- `users(status: ACTIVE) { id @include(if: true) }`. -/
def activeUsers : Selection :=
  .field none usersName [(⟨"status", by decide⟩, .enum ⟨"ACTIVE", by decide⟩)] []
    [field idName [⟨⟨"include", by decide⟩, [(⟨"if", by decide⟩, .boolean true)]⟩] []]

/-- `posts { id }`. -/
def plainPosts : Selection := field postsName [] [field idName [] []]

/-- `users { id name @skip(if: true) }`. -/
def namelessUsers : Selection :=
  field usersName [] [field idName [] [],
    field nameName [⟨⟨"skip", by decide⟩, [(⟨"if", by decide⟩, .boolean true)]⟩] []]

/-- The parser and `from_str`, on the texts that are met here. -/
def readingLibrary : Library where
  parseDocument := fun text =>
    if text = "\x7b users(status: ACTIVE) \x7b id \x7d \x7d" then
      .ok ⟨[.operation [.field none usersName [(⟨"status", by decide⟩, .enum ⟨"ACTIVE", by decide⟩)] []
        [field idName [] []]]]⟩
    else if text = "\x7b posts \x7b id \x7d \x7d" then .ok ⟨[.operation [field postsName [] [field idName [] []]]]⟩
    else if text = "\x7b users \x7b id name \x7d \x7d" then
      .ok ⟨[.operation [field usersName [] [field idName [] [], field nameName [] []]]]⟩
    else .error "unexpected text"
  fromStr := fun text =>
    if text = "\"ACTIVE\"" then some (.str "ACTIVE")
    else if text = "true" then some (.bool true)
    else none
  isUppercase := Char.isUpper
  isLowercase := Char.isLower
  camelCase := false

def listQuery (name returnType view : String) : QueryDefinition :=
  ⟨name, returnType, true, [], some view, ⟨false, false, false, false⟩, false, none, .int64, [], none, []⟩

/-- An executor over one row, whatever the view. -/
def readingExecutor : Executor where
  schema := ⟨[], [listQuery "users" "User" "v_user", listQuery "posts" "Post" "v_post"], none, ⟨[], false⟩⟩
  matcher := fun _ _ => .error noSqlSource
  defaultStrategy := .project
  rlsPolicy := none
  responseCache := none
  adapter := ⟨.postgresql, fun _ => .ok (), fun _ => .ok [.obj [("id", .str "1"), ("name", .str "ada")]],
    fun _ => .ok []⟩
  relay := none
  base64 := ⟨id, some⟩
  parseJson := fun _ => none
  charCase := .ascii
  hasher := fun _ => 0
  now := 0
  nowText := ""

theorem readBack_activeUsers : ReadBack readingLibrary activeUsers where
  parses := by
    have htext : queryText (reread activeUsers) = "\x7b users(status: ACTIVE) \x7b id \x7d \x7d" := by
      decide +kernel
    dsimp only [readingLibrary]
    rw [if_pos htext]
    rfl
  values := by
    intro v hmem _
    obtain rfl := mem_singleton.mp hmem
    have htext : serializeValue (.enum ⟨"ACTIVE", by decide⟩) = "\"ACTIVE\"" := by decide +kernel
    dsimp only [readingLibrary]
    rw [if_pos htext]
    rfl

theorem readBack_plainPosts : ReadBack readingLibrary plainPosts where
  parses := by
    have htext : queryText (reread plainPosts) = "\x7b posts \x7b id \x7d \x7d" := by
      decide +kernel
    have hother : ¬queryText (reread plainPosts) = "\x7b users(status: ACTIVE) \x7b id \x7d \x7d" := by
      decide +kernel
    dsimp only [readingLibrary]
    rw [if_neg hother, if_pos htext]
    rfl
  values := by
    intro v hmem
    cases hmem

/-- Two roots, one of them with an enumeration and a directive that lets its field stay. -/
theorem users_and_posts_run_alike :
    executeParallel readingLibrary readingExecutor
        ⟨"users", [parseSelection activeUsers, parseSelection plainPosts], []⟩ none =
      [parseSelection activeUsers, parseSelection plainPosts].mapM fun sel => do
        let response ← executeAlone readingLibrary readingExecutor
          ⟨"users", [parseSelection activeUsers, parseSelection plainPosts], []⟩ none sel
        return (sel.responseKey, dataAt sel.responseKey response) := by
  refine executeParallel_portable readingLibrary readingExecutor none ⟨[.operation [activeUsers, plainPosts]]⟩
    [activeUsers, plainPosts] ⟨"users", [parseSelection activeUsers, parseSelection plainPosts], []⟩ rfl rfl ?_ ?_
  · intro root hmem
    rcases mem_cons.mp hmem with rfl | hmem
    · exact readBack_activeUsers
    · obtain rfl := mem_singleton.mp hmem
      exact readBack_plainPosts
  · intro root hmem
    rcases mem_cons.mp hmem with rfl | hmem
    · decide +kernel
    · obtain rfl := mem_singleton.mp hmem
      decide +kernel

/-- A field that is skipped when its root runs alone is there when the root runs in parallel. -/
theorem skipped_name_returned :
    (executeParallel readingLibrary readingExecutor
        ⟨"users", [parseSelection namelessUsers, parseSelection plainPosts], []⟩ none).outcome.toOption =
      some [("users", .arr [.obj [("id", .str "1"), ("name", .str "ada")]]),
        ("posts", .arr [.obj [("id", .str "1")]])] ∧
    (executeAlone readingLibrary readingExecutor
        ⟨"users", [parseSelection namelessUsers, parseSelection plainPosts], []⟩ none
        (parseSelection namelessUsers)).outcome.toOption.map (dataAt "users") =
      some (.arr [.obj [("id", .str "1")]]) ∧
    (executeParallel readingLibrary readingExecutor
        ⟨"users", [parseSelection namelessUsers, parseSelection plainPosts], []⟩ none).outcome.toOption ≠
      ([parseSelection namelessUsers, parseSelection plainPosts].mapM fun sel => do
        let response ← executeAlone readingLibrary readingExecutor
          ⟨"users", [parseSelection namelessUsers, parseSelection plainPosts], []⟩ none sel
        return (sel.responseKey, dataAt sel.responseKey response)).outcome.toOption := by
  decide +kernel

end FraiseQL.Graphql
