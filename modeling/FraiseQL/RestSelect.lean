import FraiseQL.ByteSlice
import FraiseQL.RestBulk

/-! The `select` parameter of a GET request (`rest/params.rs`): flat fields, embedded resources in parentheses, counts,
and the filters of embedded resources. The parser walks over characters and slices by bytes, so it can panic. -/

namespace FraiseQL.Rest

open RustText

/-! ### Types -/

inductive Cardinality where
  | oneToMany | manyToOne | oneToOne

structure Relationship where
  name : String
  targetType : String
  cardinality : Cardinality
  foreignKey : String
  referencedKey : String

/-- `TypeDefinition`, with the relationships that embedded resources follow. -/
structure RestEntity extends RestType where
  relationships : List Relationship

/-- `RestConfig`, as GET requests read it. -/
structure GetConfig extends RestConfig where
  maxEmbeddingDepth : Nat
  ndjsonBatchSize : Nat

/-- `SelectEntry`; an embedded resource holds its `EmbeddedSpec`. -/
inductive SelectEntry where
  | field (name : String)
  | embedded (relationship : String) (rename : Option String) (fields : List SelectEntry)
  | count (name : String)

structure EmbeddedSpec where
  relationship : String
  rename : Option String
  fields : List SelectEntry

/-- The name a resource is embedded under. -/
def EmbeddedSpec.outputName (spec : EmbeddedSpec) : String := spec.rename.getD spec.relationship

inductive RestFieldSpec where
  | all
  | fields (names : List String)

/-- Why a request has no result: an error, or a panic. -/
inductive Refusal (ε : Type) where
  | error (e : ε)
  | panicked

namespace Refusal

variable {ε : Type}

/-- A computation that fails but does not panic. -/
def lift {α : Type} (x : Except ε α) : Except (Refusal ε) α := x.mapError .error

/-- `Option::ok_or_else`. -/
def okOr {α : Type} (value : Option α) (e : ε) : Except (Refusal ε) α :=
  match value with
  | some a => .ok a
  | none => .error (.error e)

/-- A slice, which may panic. -/
def slice (cs : List Char) (start stop : Nat) : Except (Refusal ε) (List Char) :=
  match sliceBytes cs start stop with
  | some part => .ok part
  | none => .error .panicked

/-- The same outcome with another error. -/
def mapError {ε' α : Type} (f : ε → ε') (x : Except (Refusal ε) α) : Except (Refusal ε') α :=
  x.mapError fun
    | .error e => .error (f e)
    | .panicked => .panicked

end Refusal

/-! ### The parser -/

abbrev Selected := Except (Refusal FraiseQLError)

def invalidSelect {α : Type} (message : String) : Selected α := .error (.error (.validation message none))

/-- The first index from here on whose character does not satisfy a predicate. -/
def scanWhile (p : Char → Bool) (chars : List Char) (i : Nat) : Nat := i + ((chars.drop i).takeWhile p).length

/-- How many characters stand before the parenthesis that closes the open ones. -/
def closingParen : Nat → List Char → Option Nat
  | _, [] => none
  | depth, c :: cs =>
    if c = '(' then (closingParen (depth + 1) cs).map (· + 1)
    else if c = ')' then
      if depth ≤ 1 then some 0 else (closingParen (depth - 1) cs).map (· + 1)
    else (closingParen depth cs).map (· + 1)

/-- `parse_select_entries` from an index on, with fuel; every step reads a character or goes into parentheses. -/
def readSelectEntries : Nat → List Char → Nat → Selected (List SelectEntry)
  | 0, _, _ => .ok []
  | fuel + 1, input, start =>
    let i := scanWhile (fun c => c = ',' || c = ' ') input start
    if input.length ≤ i then .ok []
    else do
      let nameEnd := scanWhile (fun c => c ∉ ['(', ',', '.', ' ']) input i
      let name := trim (← Refusal.slice input i nameEnd)
      if name = [] then invalidSelect "Empty field name in `select` parameter"
      else do
        let j := scanWhile (fun c => c = ' ') input nameEnd
        match input[j]? with
        | some '.' => do
          let stop := scanWhile (fun c => c ∉ [',', ' ']) input (j + 1)
          let suffix ← Refusal.slice input (j + 1) stop
          if suffix = "count".toList then do
            let entries ← readSelectEntries fuel input stop
            return .count (String.ofList name) :: entries
          else invalidSelect ("Unsupported dot-suffix '" ++ String.ofList suffix ++
            "' in `select`. Only `.count` is supported.")
        | some '(' => do
          let (rename, relationship) := match RustText.splitOnce [':'] name with
            | some (rename, relationship) => (some (String.ofList rename), String.ofList relationship)
            | none => (none, String.ofList name)
          match closingParen 1 (input.drop (j + 1)) with
          | none => invalidSelect ("Unbalanced parentheses in `select` for '" ++ relationship ++ "'")
          | some n => do
            let inner ← Refusal.slice input (j + 1) (j + 1 + n)
            let fields ← readSelectEntries fuel inner 0
            let entries ← readSelectEntries fuel input (j + 1 + n + 1)
            return .embedded relationship rename fields :: entries
        | _ => do
          let entries ← readSelectEntries fuel input j
          return .field (String.ofList name) :: entries

def parseSelectEntries (input : String) : Selected (List SelectEntry) :=
  readSelectEntries (input.toList.length + 1) input.toList 0

mutual

/-- `validate_embedding_depth`; flat fields and counts have no depth. -/
def validateEmbeddingDepth (maxDepth currentDepth : Nat) : SelectEntry → Except FraiseQLError Unit
  | .embedded _ _ fields =>
    if maxDepth < currentDepth then
      validationError ("Embedding depth " ++ toString currentDepth ++ " exceeds maximum of " ++ toString maxDepth ++
        ". Reduce nesting in `select` parameter.")
    else validateEmbeddingDepths maxDepth (currentDepth + 1) fields
  | _ => .ok ()

def validateEmbeddingDepths (maxDepth currentDepth : Nat) : List SelectEntry → Except FraiseQLError Unit
  | [] => .ok ()
  | entry :: entries => do
    validateEmbeddingDepth maxDepth currentDepth entry
    validateEmbeddingDepths maxDepth currentDepth entries

end

/-- What a `select` asks for. -/
structure Selection where
  fieldSelection : RestFieldSpec
  embeddings : List EmbeddedSpec
  counts : List String

namespace Selection

/-- How many parameters a selection counts for. -/
def count (s : Selection) : Nat :=
  (match s.fieldSelection with
    | .all => 0
    | .fields names => names.length) + s.embeddings.length + s.counts.length

end Selection

section Select

variable (config : GetConfig) (t : Option RestEntity)

def validateEmbeddingRelationshipName (name : String) : Except FraiseQLError Unit :=
  match t with
  | none => validationError ("Cannot embed '" ++ name ++ "': type definition not available")
  | some t =>
    if t.relationships.any fun r => r.name = name then .ok ()
    else
      let available := t.relationships.map Relationship.name
      validationError ("Type '" ++ t.name ++ "' has no relationship '" ++ name ++ "'. Available: " ++
        if available.isEmpty then "none" else String.intercalate ", " available)

/-- One entry of a `select`, checked and put with those of its kind. -/
def addSelectEntry (fields : List String) (embeddings : List EmbeddedSpec) (counts : List String) :
    SelectEntry → Except FraiseQLError (List String × List EmbeddedSpec × List String)
  | .field name => do
    validateFieldName (t.map RestEntity.toRestType) name
    return (fields ++ [name], embeddings, counts)
  | .embedded relationship rename sub => do
    validateEmbeddingDepth config.maxEmbeddingDepth 1 (.embedded relationship rename sub)
    validateEmbeddingRelationshipName t relationship
    return (fields, embeddings ++ [⟨relationship, rename, sub⟩], counts)
  | .count name => do
    validateEmbeddingRelationshipName t name
    return (fields, embeddings, counts ++ [name])

def parseSelectWithEmbeddings (raw : Option String) : Selected Selection :=
  match raw with
  | none | some "" => .ok ⟨.all, [], []⟩
  | some raw => do
    let entries ← parseSelectEntries raw
    let (fields, embeddings, counts) ← Refusal.lift (entries.foldlM (fun found entry =>
      addSelectEntry config t found.1 found.2.1 found.2.2 entry) ([], [], []))
    return ⟨if fields.isEmpty && !embeddings.isEmpty then .all else .fields fields, embeddings, counts⟩

end Select

/-! ### Filters of embedded resources -/

/-- The relationship, the field and the condition that a parameter with a dot gives. -/
def embeddingFilter (pair : String × String) : Option (String × String × Json) :=
  let (key, value) := pair
  let condition (name : List Char) (op : String) : Option (String × String × Json) :=
    (RustText.splitOnce ['.'] name).map fun parts =>
      (String.ofList parts.1, String.ofList parts.2, .obj [(op, .str value)])
  let bracket := (parseBracketKey key).bind fun (field, op) => condition field.toList op
  let simple := if key ∈ reservedParams then none else condition key.toList "eq"
  bracket.or simple

/-- `extract_embedding_filters`; of two conditions on one field the later stands. -/
def extractEmbeddingFilters (pairs : List (String × String)) : List (String × Json) :=
  (pairs.filterMap embeddingFilter).foldl (fun filters (rel, field, condition) =>
    let known := ((Json.lookup rel filters).bind Json.asObject?).getD []
    insertEntry rel (.obj (insertEntry field condition known)) filters) []

end FraiseQL.Rest
