import FraiseQL.RestRoute
import Mathlib.Data.List.Dedup
import Mathlib.Data.List.Sort

/-! Parameters of REST requests (`rest/params.rs`): how the pairs of a query string are classified, checked against
the type, and merged into a where clause. The scanner of `select` and the readers of JSON and float texts are
parameters; of a selection the extractor counts the entries. -/

namespace FraiseQL.Rest

open RustText

/-! ### Types -/

/-- `FieldDefinition`, as the REST transport reads it. -/
structure RestField where
  name : String
  aliasName : Option String
  fieldType : FieldType

namespace RestField

def outputName (f : RestField) : String := f.aliasName.getD f.name

def isPrimaryKey (f : RestField) : Bool := f.name = "id" || "pk_".toList.isPrefixOf f.name.toList

end RestField

/-- `TypeDefinition`, as the REST transport reads it. -/
structure RestType where
  name : String
  fields : List RestField

namespace RestType

def findFieldByOutputName (t : RestType) (name : String) : Option RestField :=
  t.fields.find? fun f => f.outputName = name

def searchableFields (t : RestType) : List RestField := t.fields.filter fun f => f.fieldType = .string

end RestType

structure RestConfig where
  maxPageSize : Nat
  defaultPageSize : Nat
  maxFilterBytes : Nat
  maxBulkAffected : Nat

/-- `serde_json::from_str`, `f64::from_str` with the number of a finite result, and the number of fields, embedded
resources and counts in a `select`. -/
structure ParamLibrary where
  fromStr : String → Except String Json
  parseF64 : String → Option (Option JsonNumber)
  selectEntries : Option RestType → String → Except FraiseQLError Nat

def maxVariablesCount : Nat := 1000

def maxFilterDepth : Nat := 64

def maxLogicalDepth : Nat := 64

def bracketOperators : List String :=
  ["eq", "ne", "gt", "gte", "lt", "lte", "in", "nin", "like", "ilike", "icontains", "startswith", "istartswith",
    "endswith", "iendswith", "is_null"]

def reservedParams : List String :=
  ["select", "sort", "limit", "offset", "first", "after", "last", "before", "filter", "search", "or", "and", "not"]

/-- The names in `OPERATOR_REGISTRY`. -/
def operatorRegistry : List String :=
  ["eq", "ne", "gt", "gte", "lt", "lte", "in", "nin", "like", "ilike", "nlike", "nilike", "regex", "iregex", "nregex",
    "niregex", "is_null", "is_not_null", "contains", "contained_in", "has_key", "has_any_keys", "has_all_keys",
    "array_contains", "array_contained_in", "array_overlaps", "cosine_distance", "l2_distance", "inner_product",
    "l1_distance", "hamming_distance", "jaccard_distance", "search", "plainto_tsquery", "phraseto_tsquery",
    "websearch_to_tsquery", "startswith", "istartswith", "endswith", "iendswith", "icontains", "imatches",
    "not_matches", "isIPv4", "isIPv6", "isPrivate", "isPublic", "inSubnet", "notInSubnet", "subnet_contains",
    "subnet_overlaps", "contains_date", "adjacent", "strictly_left", "strictly_right", "not_left", "not_right",
    "overlaps", "ancestor_of", "descendant_of", "matches_lquery", "matches_ltxtquery", "matches_any_lquery",
    "depth_eq", "depth_gt", "depth_lt", "isdescendant", "distance_within", "strictly_contains", "neq", "isnull",
    "array_eq", "array_neq", "array_contained_by", "notin"]

def validationError {α : Type} (message : String) : Except FraiseQLError α := .error (.validation message none)

/-- `sort_unstable`. -/
def sortedNames (names : List String) : List String := names.mergeSort fun a b => decide (a ≤ b)

/-! ### Keys and values -/

def parseBracketKey (key : String) : Option (String × String) :=
  let cs := key.toList
  match cs.idxOf? '[', cs.idxOf? ']' with
  | some start, some close =>
    if close ≤ start + 1 ∨ close ≠ cs.length - 1 ∨ start = 0 then none
    else some (String.ofList (cs.take start), String.ofList ((cs.take close).drop (start + 1)))
  | _, _ => none

/-- `u64::from_str`. -/
def parseU64 (s : String) : Option Nat :=
  let digits := match s.toList with
    | '+' :: cs => cs
    | cs => cs
  (parseDigits digits).bind fun n => if n < 2 ^ 64 then some n else none

/-- The texts between commas, trimmed. -/
def commaParts (raw : String) : List String :=
  (raw.toList.splitOn ',').map fun part => String.ofList (trim part)

variable (lib : ParamLibrary)

def coerceToType (raw : String) : FieldType → Except FraiseQLError Json
  | .int =>
    match parseI64 raw with
    | some n => .ok (jsonOfI64 n)
    | none => validationError ("Expected integer value, got '" ++ raw ++ "'.")
  | .float | .decimal =>
    match lib.parseF64 raw with
    | some (some n) => .ok (.num n)
    | some none => .ok (.str raw)
    | none => validationError ("Expected numeric value, got '" ++ raw ++ "'.")
  | .boolean =>
    if raw ∈ ["true", "1", "yes"] then .ok (.bool true)
    else if raw ∈ ["false", "0", "no"] then .ok (.bool false)
    else validationError ("Expected boolean value (true/false/1/0), got '" ++ raw ++ "'.")
  | .json =>
    match lib.fromStr raw with
    | .ok value => .ok value
    | .error e => validationError ("Expected JSON value, got '" ++ raw ++ "': " ++ e)
  | .list _ =>
    match lib.fromStr raw with
    | .ok (.arr items) => .ok (.arr items)
    | _ => .ok (.arr ((commaParts raw).map .str))
  | _ => .ok (.str raw)

def parseLogicalValue (raw : String) : Json :=
  match parseI64 raw, lib.parseF64 raw with
  | some n, _ => jsonOfI64 n
  | none, some (some n) => .num n
  | none, _ =>
    match raw with
    | "true" => .bool true
    | "false" => .bool false
    | _ => .str raw

/-! ### Logical groups -/

/-- `split_logical_parts`, with the parentheses open and the part read so far. -/
def splitLogicalParts : Int → List Char → List Char → List (List Char)
  | _, current, [] => if current.isEmpty then [] else [current]
  | depth, current, c :: cs =>
    if c = '(' then splitLogicalParts (depth + 1) (current ++ [c]) cs
    else if c = ')' then splitLogicalParts (depth - 1) (current ++ [c]) cs
    else if c = ',' ∧ depth = 0 then current :: splitLogicalParts depth [] cs
    else splitLogicalParts depth (current ++ [c]) cs

def parseNestedLogical (part : List Char) : Option (String × List Char) :=
  ["and", "or", "not"].findSome? fun op =>
    (stripStart (op ++ "=").toList part).bind fun rest =>
      if rest.head? = some '(' ∧ rest.getLast? = some ')' then some (op, rest) else none

/-- `parse_logical_group`, with the levels of nesting that are left. -/
def parseLogicalGroup : Nat → List Char → String → Except FraiseQLError Json
  | 0, _, _ => validationError
      ("Logical operator nesting depth exceeds maximum (" ++ toString maxLogicalDepth ++ ").")
  | levels + 1, input, dslKey =>
    let trimmed := trim input
    if trimmed.head? ≠ some '(' ∨ trimmed.getLast? ≠ some ')' then
      validationError ("Logical operator value must be enclosed in parentheses: `" ++ dslKey ++ "=(...)`. Got: `" ++
        String.ofList trimmed ++ "`")
    else do
      let parts := splitLogicalParts 0 [] (trimmed.drop 1).dropLast
      let conditions ← ((parts.map trim).filter (· ≠ [])).mapM fun part =>
        match parseNestedLogical part with
        | some (op, nested) => (parseLogicalGroup levels nested ("_" ++ op)).map some
        | none =>
          match splitOnce ['='] part with
          | some (fieldOp, value) =>
            let json := parseLogicalValue lib (String.ofList value)
            match parseBracketKey (String.ofList fieldOp) with
            | some (field, op) => .ok (some (.obj [(field, .obj [(op, json)])]))
            | none => .ok (some (.obj [(String.ofList fieldOp, .obj [("eq", json)])]))
          | none => .ok none
      return .obj [(dslKey, .arr (conditions.filterMap id))]

/-! ### Checks -/

section Checks

variable (t : Option RestType)

def validateFieldName (name : String) : Except FraiseQLError Unit :=
  match t with
  | none => .ok ()
  | some t =>
    if (t.findFieldByOutputName name).isSome then .ok ()
    else validationError ("Unknown field '" ++ name ++ "'. Available fields: " ++
      String.intercalate ", " (sortedNames (t.fields.map RestField.outputName)))

def validateBracketOperator (op : String) : Except FraiseQLError Unit :=
  if op ∈ bracketOperators then .ok ()
  else validationError ("Unknown bracket operator '" ++ op ++ "'. Available bracket operators: " ++
    String.intercalate ", " bracketOperators)

def isValidField (name : String) : Bool := t.all fun t => (t.findFieldByOutputName name).isSome

def coerceFieldValue (name raw : String) : Except FraiseQLError Json :=
  match t.bind fun t => t.findFieldByOutputName name with
  | some f => coerceToType lib raw f.fieldType
  | none => .ok (.str raw)

def unknownParamError {α : Type} (key : String) : Except FraiseQLError α :=
  let names := reservedParams ++ ((t.map RestType.fields).getD []).map RestField.outputName
  validationError ("Unknown query parameter '" ++ key ++ "'. Available parameters: " ++
    String.intercalate ", " (sortedNames names.dedup))

/-- The operators of one field in a filter. -/
def validateOperators : Json → Except FraiseQLError Unit
  | .obj ops =>
    match ops.find? fun op => op.1 ∉ operatorRegistry with
    | some op => validationError ("Unknown filter operator '" ++ op.1 ++ "'. Available operators: " ++
        String.intercalate ", " (sortedNames operatorRegistry))
    | none => .ok ()
  | _ => .ok ()

mutual

def validateFilterValue : Json → Except FraiseQLError Unit
  | .obj entries => validateFilterEntries entries
  | _ => .ok ()

def validateFilterEntries : List (String × Json) → Except FraiseQLError Unit
  | [] => .ok ()
  | (key, inner) :: entries => do
    if key ∈ ["_or", "_and", "_not"] then
      match inner with
      | .arr items => validateFilterItems items
      | _ => .ok ()
    else do
      validateFieldName t key
      validateOperators inner
    validateFilterEntries entries

def validateFilterItems : List Json → Except FraiseQLError Unit
  | [] => .ok ()
  | item :: items => do
    validateFilterValue item
    validateFilterItems items

end

mutual

def jsonDepth : Json → Nat
  | .obj entries => 1 + entriesDepth entries
  | .arr items => 1 + itemsDepth items
  | _ => 1

def entriesDepth : List (String × Json) → Nat
  | [] => 0
  | (_, value) :: entries => max (jsonDepth value) (entriesDepth entries)

def itemsDepth : List Json → Nat
  | [] => 0
  | item :: items => max (jsonDepth item) (itemsDepth items)

end

def parseFilter (config : RestConfig) (raw : Option String) : Except FraiseQLError (Option Json) :=
  match raw with
  | none => .ok none
  | some raw =>
    if config.maxFilterBytes < raw.utf8ByteSize then
      validationError ("Filter parameter exceeds maximum size (" ++ toString raw.utf8ByteSize ++
        " bytes). Maximum allowed: " ++ toString config.maxFilterBytes ++ " bytes.")
    else
      match lib.fromStr raw with
      | .error e => validationError ("Invalid filter JSON: " ++ e)
      | .ok parsed =>
        if maxFilterDepth < jsonDepth parsed then
          validationError ("Filter JSON exceeds maximum nesting depth (" ++ toString maxFilterDepth ++ ").")
        else (validateFilterValue t parsed).map fun _ => some parsed

def parseSort (raw : Option String) : Except FraiseQLError (Option Json) :=
  match raw with
  | none | some "" => .ok none
  | some raw => do
    let parts ← (commaParts raw).mapM fun part => do
      let (field, direction) := match part.toList with
        | '-' :: cs => (String.ofList cs, "DESC")
        | _ => (part, "ASC")
      validateFieldName t field
      return Json.obj [("direction", .str direction), ("field", .str field)]
    return some (.arr parts)

end Checks

/-! ### Extraction -/

/-- The pairs of a query string by kind; of a reserved parameter the last value stands. -/
structure ClassifiedParams where
  simple : List (String × Json) := []
  bracket : List (String × String × String) := []
  logical : List (String × String) := []
  filter : Option String := none
  select : Option String := none
  sort : Option String := none
  limit : Option String := none
  offset : Option String := none
  first : Option String := none
  after : Option String := none
  last : Option String := none
  before : Option String := none
  search : Option String := none

inductive PaginationParams where
  | offset (limit offset : Nat)
  | cursor (first : Option Nat) (after : Option String) (last : Option Nat) (before : Option String)
  | none

/-- `ExtractedParams`, without what only embedded resources use. -/
structure ExtractedParams where
  whereClause : Option Json
  orderBy : Option Json
  pagination : PaginationParams
  searchQuery : Option String

section Extraction

variable (config : RestConfig) (d : QueryDefinition) (t : Option RestType)

/-- One pair; a key with a dot is left to the embedded resources. -/
def classifyParam (params : ClassifiedParams) (pair : String × String) : Except FraiseQLError ClassifiedParams :=
  let (key, value) := pair
  if '.' ∈ key.toList ∧ key ∉ reservedParams then .ok params
  else
    match parseBracketKey key with
    | some (field, op) =>
      if '.' ∈ field.toList then .ok params
      else do
        validateBracketOperator op
        validateFieldName t field
        return { params with bracket := params.bracket ++ [(field, op, value)] }
    | none =>
      match key with
      | "select" => .ok { params with select := some value }
      | "sort" => .ok { params with sort := some value }
      | "limit" => .ok { params with limit := some value }
      | "offset" => .ok { params with offset := some value }
      | "first" => .ok { params with first := some value }
      | "after" => .ok { params with after := some value }
      | "last" => .ok { params with last := some value }
      | "before" => .ok { params with before := some value }
      | "filter" => .ok { params with filter := some value }
      | "search" => .ok { params with search := some value }
      | "or" | "and" | "not" => .ok { params with logical := params.logical ++ [(key, value)] }
      | _ =>
        if !d.returnsList then
          validationError ("Unknown query parameter '" ++ key ++
            "' for single-resource endpoint. Available parameters: select")
        else if isValidField t key then do
          let coerced ← coerceFieldValue lib t key value
          return { params with simple := params.simple ++ [(key, coerced)] }
        else unknownParamError t key

/-- Offset and cursor parameters do not mix. -/
def checkPagination (params : ClassifiedParams) : Except FraiseQLError Unit :=
  if !d.returnsList then .ok ()
  else if d.relay && (params.limit.isSome || params.offset.isSome) then
    validationError ("This endpoint uses cursor-based pagination. Use `first`/`after`/`last`/`before` instead of " ++
      "`limit`/`offset`.")
  else if !d.relay && (params.first.isSome || params.after.isSome || params.last.isSome || params.before.isSome) then
    validationError ("This endpoint uses offset-based pagination. Use `limit`/`offset` instead of " ++
      "`first`/`after`/`last`/`before`.")
  else .ok ()

/-- The full-text search, where the type can be searched. -/
def checkSearch (raw : Option String) : Except FraiseQLError (Option String) :=
  match raw with
  | none => .ok none
  | some raw =>
    if !d.returnsList then validationError "Full-text search not available on single-resource endpoints."
    else
      match t with
      | some t =>
        if t.searchableFields.isEmpty then
          validationError ("Full-text search not available on '" ++ t.name ++
            "'. No searchable fields configured.")
        else .ok (some raw)
      | none => .ok (some raw)

def insertOperator (field op : String) (value : Json) (merged : List (String × Json)) : List (String × Json) :=
  let ops := ((Json.lookup field merged).bind Json.asObject?).getD []
  insertEntry field (.obj (insertEntry op value ops)) merged

/-- An entry of a filter; operators are merged with those there are, another value replaces them. -/
def insertFilter (merged : List (String × Json)) (entry : String × Json) : List (String × Json) :=
  match entry.2 with
  | .obj ops =>
    let known := ((Json.lookup entry.1 merged).bind Json.asObject?).getD []
    insertEntry entry.1 (.obj (ops.foldl (fun known op => insertEntry op.1 op.2 known) known)) merged
  | value => insertEntry entry.1 value merged

def mergeWhere (simple : List (String × Json)) (bracket : List (String × String × String)) (filter : Option Json) :
    Except FraiseQLError (Option Json) := do
  let merged := simple.foldl (fun merged pair => insertOperator pair.1 "eq" pair.2 merged) []
  let merged ← bracket.foldlM (fun merged condition => do
    let coerced ← coerceFieldValue lib t condition.1 condition.2.2
    return insertOperator condition.1 condition.2.1 coerced merged) merged
  let merged := ((filter.bind Json.asObject?).getD []).foldl insertFilter merged
  return if merged.isEmpty then none else some (.obj merged)

def mergeWhereWithLogical (regular : Option Json) (logical : List Json) : Option Json :=
  match regular, logical with
  | regular, [] => regular
  | some regular, logical => some (.obj [("_and", .arr (regular :: logical))])
  | none, [group] => some group
  | none, logical => some (.obj [("_and", .arr logical)])

def parseCount (name expected : String) (raw : Option String) : Except FraiseQLError (Option Nat) :=
  match raw with
  | none => .ok none
  | some raw =>
    match parseU64 raw with
    | some n => .ok (some n)
    | none => validationError ("Invalid `" ++ name ++ "` value: '" ++ raw ++ "'. Expected a " ++ expected ++ " integer.")

def parseOffsetPagination (params : ClassifiedParams) : Except FraiseQLError PaginationParams := do
  let limit ← parseCount "limit" "positive" params.limit
  let offset ← parseCount "offset" "non-negative" params.offset
  return .offset ((limit.map fun n => min n config.maxPageSize).getD config.defaultPageSize) (offset.getD 0)

def parseCursorPagination (params : ClassifiedParams) : Except FraiseQLError PaginationParams := do
  let given ← parseCount "first" "positive" params.first
  let first := match given with
    | some n => some (min n config.maxPageSize)
    | none =>
      if params.after.isNone && params.last.isNone && params.before.isNone then some config.defaultPageSize else none
  let last ← parseCount "last" "positive" params.last
  return .cursor first params.after last params.before

namespace PaginationParams

def count : PaginationParams → Nat
  | .offset _ _ => 2
  | .cursor first after last before =>
    first.toList.length + after.toList.length + last.toList.length + before.toList.length
  | .none => 0

end PaginationParams

def countWhereFields : Json → Nat
  | .obj entries => entries.length
  | _ => 1

/-- `RestParamExtractor::extract`, for a path without parameters. -/
def extract (pairs : List (String × String)) : Except FraiseQLError ExtractedParams := do
  let params ← pairs.foldlM (classifyParam lib d t) {}
  checkPagination d params
  let selected ← match params.select with
    | none | some "" => .ok 0
    | some raw => lib.selectEntries t raw
  let orderBy ← parseSort t params.sort
  let searchQuery ← checkSearch d t params.search
  let logical ← params.logical.mapM fun group => parseLogicalGroup lib maxLogicalDepth group.2.toList ("_" ++ group.1)
  let filter ← parseFilter lib t config params.filter
  let regular ← mergeWhere lib t params.simple params.bracket filter
  let whereClause := mergeWhereWithLogical regular logical
  let pagination ←
    if !d.returnsList then .ok PaginationParams.none
    else if d.relay then parseCursorPagination config params
    else parseOffsetPagination config params
  let total := (whereClause.map countWhereFields).getD 0 + orderBy.toList.length + pagination.count + selected
  if maxVariablesCount < total then
    validationError ("Too many parameters (" ++ toString total ++ "). Maximum allowed: " ++
      toString maxVariablesCount ++ ".")
  else return ⟨whereClause, orderBy, pagination, searchQuery⟩

end Extraction

end FraiseQL.Rest
