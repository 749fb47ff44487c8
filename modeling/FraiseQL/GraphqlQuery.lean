import FraiseQL.Executor
import FraiseQL.MapEntries

/-! From a query text to a matched query: the syntax tree of the `graphql-parser` crate, its conversion to a
parsed query (`graphql/parser.rs`), fragment resolution (`fragment_resolver.rs`), the `@skip` and `@include`
directives (`directive_evaluator/evaluator.rs`) and the matcher (`runtime/matcher.rs`). The parser of the
crate and `serde_json::from_str` are parameters. Operation names and variable definitions are carried along
by the code and read by none of these; they are left out. -/

namespace FraiseQL.Graphql

/-! ### The syntax tree -/

def isNameChar (c : Char) : Bool := c.isAlphanum || c == '_'

/-- A GraphQL name. -/
structure Name where
  text : String
  valid : text.toList.all isNameChar = true
  deriving DecidableEq

/-- An `f64`, by the texts it is printed as: `Display`, and the JSON text of a float. -/
structure Double where
  display : String
  json : FloatText

/-- `query::Value`; an object is a `BTreeMap`, the list of its entries in key order. -/
inductive Value where
  | variable (name : Name)
  | int (n : Int64)
  | float (f : Double)
  | string (s : String)
  | boolean (b : Bool)
  | null
  | enum (name : Name)
  | list (items : List Value)
  | object (entries : List (Name × Value))

structure Directive where
  name : Name
  arguments : List (Name × Value)

inductive Selection where
  | field (aliasName : Option Name) (name : Name) (arguments : List (Name × Value)) (directives : List Directive)
      (selectionSet : List Selection)
  | fragmentSpread (fragmentName : Name) (directives : List Directive)
  | inlineFragment (typeCondition : Option Name) (directives : List Directive) (selectionSet : List Selection)

inductive Definition where
  | operation (selectionSet : List Selection)
  | fragment (name : Name) (selectionSet : List Selection)

structure Document where
  definitions : List Definition

/-! ### The parsed query -/

inductive ValueType where
  | string | int | float | boolean | null | enum | list | object | variable

structure GraphQLArgument where
  name : String
  valueType : ValueType
  valueJson : String

/-- The `Directive` of a parsed selection. -/
structure ParsedDirective where
  name : String
  arguments : List GraphQLArgument

/-- The `FieldSelection` of a parsed query, with its directives. -/
inductive ParsedSelection where
  | mk (name : String) (aliasName : Option String) (arguments : List GraphQLArgument)
      (nestedFields : List ParsedSelection) (directives : List ParsedDirective)

namespace ParsedSelection

def name : ParsedSelection → String
  | .mk name _ _ _ _ => name

def aliasName : ParsedSelection → Option String
  | .mk _ aliasName _ _ _ => aliasName

def arguments : ParsedSelection → List GraphQLArgument
  | .mk _ _ arguments _ _ => arguments

def nestedFields : ParsedSelection → List ParsedSelection
  | .mk _ _ _ nestedFields _ => nestedFields

def directives : ParsedSelection → List ParsedDirective
  | .mk _ _ _ _ directives => directives

def responseKey (sel : ParsedSelection) : String := sel.aliasName.getD sel.name

mutual

/-- What is read of a selection once its directives have been evaluated. -/
def erase : ParsedSelection → FieldSelection
  | .mk name aliasName arguments nestedFields _ =>
    .mk name aliasName (arguments.map fun arg => (arg.name, arg.valueJson)) (eraseAll nestedFields)

def eraseAll : List ParsedSelection → List FieldSelection
  | [] => []
  | sel :: sels => erase sel :: eraseAll sels

end

end ParsedSelection

structure FragmentDefinition where
  name : String
  selections : List ParsedSelection

structure ParsedQuery where
  rootField : String
  selections : List ParsedSelection
  fragments : List FragmentDefinition

/-! ### Conversion -/

def maxSerializeDepth : Nat := 64

/-- `value_type_string`. -/
def valueType : Value → ValueType
  | .string _ => .string
  | .int _ => .int
  | .float _ => .float
  | .boolean _ => .boolean
  | .null => .null
  | .enum _ => .enum
  | .list _ => .list
  | .object _ => .object
  | .variable _ => .variable

/-- `s.replace('"', "\\\"")`. -/
def escapeDoubleQuotes (s : String) : String :=
  String.ofList (s.toList.flatMap fun c => if c = '"' then ['\\', '"'] else [c])

mutual

def serializeValueInner (depth : Nat) (value : Value) : Option String :=
  if maxSerializeDepth < depth then none
  else match value with
    | .string s => some ("\"" ++ escapeDoubleQuotes s ++ "\"")
    | .int n => some (toString n)
    | .float f => some f.display
    | .boolean b => some (toString b)
    | .null => some "null"
    | .enum e => some ("\"" ++ e.text ++ "\"")
    | .list items =>
      (serializeItems (depth + 1) items).map fun parts => "[" ++ String.intercalate "," parts ++ "]"
    | .object entries =>
      (serializeEntries (depth + 1) entries).map fun pairs =>
        "\x7b" ++ String.intercalate "," pairs ++ "\x7d"
    | .variable v => some ("\"$" ++ v.text ++ "\"")

def serializeItems (depth : Nat) : List Value → Option (List String)
  | [] => some []
  | item :: items =>
    (serializeValueInner depth item).bind fun part => (serializeItems depth items).map fun parts => part :: parts

def serializeEntries (depth : Nat) : List (Name × Value) → Option (List String)
  | [] => some []
  | (k, v) :: entries =>
    (serializeValueInner depth v).bind fun serialized =>
      (serializeEntries depth entries).map fun pairs => ("\"" ++ k.text ++ "\":" ++ serialized) :: pairs

end

def serializeValue (value : Value) : String := (serializeValueInner 0 value).getD "null"

def toArgument (arg : Name × Value) : GraphQLArgument := ⟨arg.1.text, valueType arg.2, serializeValue arg.2⟩

def parseDirective (directive : Directive) : ParsedDirective :=
  ⟨directive.name.text, directive.arguments.map toArgument⟩

mutual

/-- One selection of `parse_selection_set`. -/
def parseSelection : Selection → ParsedSelection
  | .field aliasName name arguments directives selectionSet =>
    .mk name.text (aliasName.map Name.text) (arguments.map toArgument) (parseSelectionSet selectionSet)
      (directives.map parseDirective)
  | .fragmentSpread fragmentName directives =>
    .mk ("..." ++ fragmentName.text) none [] [] (directives.map parseDirective)
  | .inlineFragment typeCondition directives selectionSet =>
    .mk ("...on " ++ (typeCondition.map Name.text).getD "") none [] (parseSelectionSet selectionSet)
      (directives.map parseDirective)

/-- `parse_selection_set`; it never fails. -/
def parseSelectionSet : List Selection → List ParsedSelection
  | [] => []
  | sel :: sels => parseSelection sel :: parseSelectionSet sels

end

/-- The first operation of a document. -/
def Document.operation (doc : Document) : Option (List Selection) :=
  doc.definitions.findSome? fun
    | .operation selectionSet => some selectionSet
    | .fragment _ _ => none

def extractFragments (doc : Document) : List FragmentDefinition :=
  doc.definitions.filterMap fun
    | .fragment name selectionSet => some ⟨name.text, parseSelectionSet selectionSet⟩
    | .operation _ => none

/-- `parse_query` after the crate's parser; the error is its text. -/
def toParsedQuery (doc : Document) : Except String ParsedQuery :=
  match doc.operation with
  | none => .error "No query or mutation operation found"
  | some selectionSet =>
    match parseSelectionSet selectionSet with
    | [] => .error "No fields in selection set"
    | sel :: sels => .ok ⟨sel.name, sel :: sels, extractFragments doc⟩

/-! ### Fragments -/

/-- `FragmentResolver::new`: of two fragments with one name the later stands. -/
def findFragment (fragments : List FragmentDefinition) (name : String) : Option FragmentDefinition :=
  fragments.reverse.find? fun f => f.name = name

def maxFragmentDepth : Nat := 10

def stripStart (start : List Char) (s : String) : Option String :=
  if start.isPrefixOf s.toList then some (String.ofList (s.toList.drop start.length)) else none

/-- One selection of `resolve_selections`; the selections one level deeper are resolved by `deeper`. -/
def resolveSelection (fragments : List FragmentDefinition)
    (deeper : List String → List ParsedSelection → Except String (List ParsedSelection)) (visited : List String)
    (sel : ParsedSelection) : Except String (List ParsedSelection) :=
  let whole : Except String (List ParsedSelection) :=
    if sel.nestedFields.isEmpty then .ok [sel]
    else (deeper visited sel.nestedFields).map fun nested =>
      [.mk sel.name sel.aliasName sel.arguments nested sel.directives]
  match stripStart ['.', '.', '.'] sel.name with
  | none => whole
  | some fragmentName =>
    if ['o', 'n', ' '].isPrefixOf fragmentName.toList then whole
    else if visited.contains fragmentName then .error "Circular fragment reference detected"
    else match findFragment fragments fragmentName with
      | none => .error ("Fragment not found: " ++ fragmentName)
      | some fragment => deeper (fragmentName :: visited) fragment.selections

/-- `resolve_selections`, by the levels that are left. -/
def resolveSelections (fragments : List FragmentDefinition) :
    Nat → List String → List ParsedSelection → Except String (List ParsedSelection)
  | 0, _, _ => .error ("Fragment depth exceeded (max: " ++ toString maxFragmentDepth ++ ")")
  | levels + 1, visited, selections =>
    (selections.mapM (resolveSelection fragments (resolveSelections fragments levels) visited)).map List.flatten

def resolveSpreads (fragments : List FragmentDefinition) (selections : List ParsedSelection) :
    Except String (List ParsedSelection) :=
  resolveSelections fragments (maxFragmentDepth + 1) [] selections

/-! ### Directives -/

section Directives

variable (fromStr : String → Option Json) (vars : List (String × Json))

/-- The value of a variable in a condition. -/
def booleanVariable (varName : String) : Except String Bool :=
  match Json.lookup varName vars with
  | none => .error ("Undefined variable: " ++ varName)
  | some (.bool b) => .ok b
  | some _ => .error ("Variable type mismatch: " ++ varName ++ " should be Boolean")

def resolveBooleanCondition (valueJson : String) : Except String Bool :=
  match fromStr valueJson with
  | some (.bool b) => .ok b
  | some (.str s) =>
    match stripStart ['$'] s with
    | some varName => booleanVariable vars varName
    | none => .error "Invalid directive argument"
  | some _ => .error "Invalid directive argument"
  | none =>
    match stripStart ['$'] valueJson with
    | some varName => booleanVariable vars varName
    | none => .error "Invalid directive argument"

/-- `evaluate_skip` and `evaluate_include`. -/
def evaluateIf (directive : ParsedDirective) : Except String Bool :=
  match directive.arguments.find? fun arg => arg.name = "if" with
  | none => .error "Missing directive argument: if"
  | some arg => resolveBooleanCondition fromStr vars arg.valueJson

/-- `evaluate_directives`: whether the selection stays. -/
def evaluateDirectives : List ParsedDirective → Except String Bool
  | [] => .ok true
  | directive :: directives =>
    if directive.name = "skip" then
      (evaluateIf fromStr vars directive).bind fun skip =>
        if skip then .ok false else evaluateDirectives directives
    else if directive.name = "include" then
      (evaluateIf fromStr vars directive).bind fun keep =>
        if keep then evaluateDirectives directives else .ok false
    else evaluateDirectives directives

mutual

/-- One selection of `filter_selections`: what is left of it. -/
def filterSelection : ParsedSelection → Except String (Option ParsedSelection)
  | .mk name aliasName arguments nestedFields directives =>
    (evaluateDirectives fromStr vars directives).bind fun keep =>
      if keep then
        (filterSelections nestedFields).map fun nested => some (.mk name aliasName arguments nested directives)
      else .ok none

def filterSelections : List ParsedSelection → Except String (List ParsedSelection)
  | [] => .ok []
  | sel :: sels =>
    (filterSelection sel).bind fun kept => (filterSelections sels).map fun rest => kept.toList ++ rest

end

end Directives

/-! ### Query definitions by name -/

/-- `to_camel_case` of `utils/casing.rs`. -/
def toCamelCase (s : String) : String :=
  if s.toList.contains '_' then
    String.ofList (s.toList.foldl (fun (acc : List Char × Bool) c =>
      if c = '_' then (acc.1, true)
      else if acc.2 then (acc.1 ++ [c.toUpper], false)
      else (acc.1 ++ [c], false)) ([], false)).1
  else s

/-- The loop of `to_snake_case` in `utils/casing.rs`: the characters, and the kind of the one before. -/
def snakeChars (isUppercase isLowercase : Char → Bool) : (first prevUpper prevLower : Bool) → List Char → List Char
  | _, _, _, [] => []
  | first, prevUpper, prevLower, c :: cs =>
    if isUppercase c then
      let nextIsLower := (cs.head?.map isLowercase).getD false
      let start := if !first && (prevLower || (prevUpper && nextIsLower)) then ['_'] else []
      start ++ c.toLower :: snakeChars isUppercase isLowercase false true false cs
    else c :: snakeChars isUppercase isLowercase false false (isLowercase c) cs

/-- One row of the distance table, from the row above it. -/
def distanceRow (c : Char) : List Char → List Nat → Nat → List Nat
  | b :: bs, diagonal :: above :: row, left =>
    let entry := if c = b then diagonal else 1 + min (min diagonal above) left
    entry :: distanceRow c bs (above :: row) entry
  | _, _, _ => []

def levenshtein (a b : String) : Nat :=
  let m := a.toList.length
  let n := b.toList.length
  let gap := max m n - min m n
  if 2 < gap then gap
  else
    let last := a.toList.zipIdx.foldl (fun row (c, i) => (i + 1) :: distanceRow c b.toList row (i + 1))
      (List.range (n + 1))
    last.getLast?.getD 0

def suggestSimilar (needle : String) (haystack : List String) : List String :=
  let ranked := (haystack.map fun candidate => (levenshtein needle candidate, candidate)).filter fun r => r.1 ≤ 2
  ((ranked.mergeSort fun a b => decide (a.1 ≤ b.1)).take 3).map (·.2)

/-- The message for an unknown query. -/
def unknownQuery (rootField : String) : List String → String
  | [] => "Query '" ++ rootField ++ "' not found in schema"
  | [s] => "Query '" ++ rootField ++ "' not found in schema. Did you mean '" ++ s ++ "'?"
  | [a, b] => "Query '" ++ rootField ++ "' not found in schema. Did you mean '" ++ a ++ "' or '" ++ b ++ "'?"
  | a :: b :: c :: _ =>
    "Query '" ++ rootField ++ "' not found in schema. Did you mean '" ++ a ++ "', '" ++ b ++ "', or '" ++ c ++ "'?"

/-- What the matcher takes from outside, and the naming convention of the schema. -/
structure Library where
  parseDocument : String → Except String Document
  fromStr : String → Option Json
  isUppercase : Char → Bool
  isLowercase : Char → Bool
  camelCase : Bool

namespace Library

variable (lib : Library)

/-- `to_snake_case` of `utils/casing.rs`. -/
def snakeCase (s : String) : String :=
  if s.toList.any lib.isUppercase then
    String.ofList (snakeChars lib.isUppercase lib.isLowercase true false false s.toList)
  else s

def displayName (name : String) : String := if lib.camelCase then toCamelCase name else name

/-- The query index: of two queries with one name the later stands. -/
def indexedQuery (queries : List QueryDefinition) (name : String) : Option QueryDefinition :=
  queries.reverse.find? fun q => q.name = name ∨ lib.displayName q.name = name

def findQuery (queries : List QueryDefinition) (name : String) : Option QueryDefinition :=
  (lib.indexedQuery queries name).or (lib.indexedQuery queries (lib.snakeCase name))

/-! ### The matcher -/

def resolveInlineArg (valueJson : String) (vars : List (String × Json)) : Option Json :=
  match stripStart ['$'] valueJson with
  | some varName => Json.lookup varName vars
  | none =>
    (lib.fromStr valueJson).bind fun parsed =>
      match parsed with
      | .str s =>
        match stripStart ['$'] s with
        | some varName => Json.lookup varName vars
        | none => some parsed
      | _ => some parsed

/-- The inline arguments of the root, where no variable has their name. -/
def mergeInlineArguments (inline : List (String × String)) (arguments : List (String × Json)) :
    List (String × Json) :=
  inline.foldl (fun arguments (name, valueJson) =>
    if (Json.lookup name arguments).isSome then arguments
    else match lib.resolveInlineArg valueJson arguments with
      | some value => insertEntry name value arguments
      | none => arguments) arguments

end Library

/-- `build_variables_map` and `extract_arguments`. -/
def variablesMap : Option Json → List (String × Json)
  | some (.obj entries) => entries.foldl (fun map entry => insertEntry entry.1 entry.2 map) []
  | _ => []

open MapEntries in
theorem variablesMap_inOrder (vars : Option Json) : InOrder (variablesMap vars) := by
  unfold variablesMap
  split
  · exact insertAll_inOrder _ List.Pairwise.nil
  · exact List.Pairwise.nil

open MapEntries in
theorem mergeInlineArguments_inOrder (lib : Library) (inline : List (String × String))
    {arguments : List (String × Json)} (h : InOrder arguments) :
    InOrder (lib.mergeInlineArguments inline arguments) := by
  induction inline generalizing arguments with
  | nil => exact h
  | cons arg inline ih =>
    rw [Library.mergeInlineArguments, List.foldl_cons, ← Library.mergeInlineArguments]
    apply ih
    dsimp only
    split_ifs
    · exact h
    · split
      · exact insertEntry_inOrder _ _ h
      · exact h

/-- The selections of a parsed query after fragments and directives. -/
def finalSelections (lib : Library) (parsed : ParsedQuery) (vars : Option Json) :
    Except FraiseQLError (List FieldSelection) := do
  let resolved ← (resolveSpreads parsed.fragments parsed.selections).mapError
    fun e => .validation e (some "fragments")
  let kept ← (filterSelections lib.fromStr (variablesMap vars) resolved).mapError
    fun e => .validation e (some "directives")
  return ParsedSelection.eraseAll kept

/-- `match_query` once the query is parsed. -/
def matchParsed (lib : Library) (schema : CompiledSchema) (parsed : ParsedQuery) (vars : Option Json) :
    Except FraiseQLError QueryMatch := do
  let selections ← finalSelections lib parsed vars
  let queryDef ← okOr (lib.findQuery schema.queries parsed.rootField) (.validation (unknownQuery parsed.rootField
    (suggestSimilar parsed.rootField (schema.queries.map fun q => lib.displayName q.name))) none)
  let inline := (selections.head?.map FieldSelection.arguments).getD []
  return ⟨queryDef, selections, lib.mergeInlineArguments inline (variablesMap vars),
    mergeInlineArguments_inOrder lib inline (variablesMap_inOrder vars)⟩

def parseQuery (lib : Library) (source : String) : Except String ParsedQuery :=
  match lib.parseDocument source with
  | .error e => .error ("Failed to parse GraphQL query: " ++ e)
  | .ok doc => toParsedQuery doc

def matchQuery (lib : Library) (schema : CompiledSchema) (query : String) (vars : Option Json) :
    Except FraiseQLError QueryMatch := do
  let parsed ← (parseQuery lib query).mapError fun e => .parse e "query"
  matchParsed lib schema parsed vars

end FraiseQL.Graphql
