import FraiseQL.GraphqlQuery

/-! Queries with several roots (`runtime/executor/pipeline.rs`). Each root of a parsed query is written back as
the text of a query of its own, which is parsed, matched and run like any other; the values are taken out of
the responses by the response keys. The sub-queries are independent reads, so running them one after the other
gives the same values; of several failures the first in order stands for the first to complete. -/

namespace FraiseQL.Graphql

/-! ### The serializer -/

mutual

def jsonValueToGraphql : Json → String
  | .obj entries => "\x7b" ++ String.intercalate ", " (jsonEntriesToGraphql entries) ++ "\x7d"
  | .arr items => "[" ++ String.intercalate ", " (jsonItemsToGraphql items) ++ "]"
  | .str s => "\"" ++ s ++ "\""
  | .num n => Json.numberText n
  | .bool b => toString b
  | .null => "null"

def jsonItemsToGraphql : List Json → List String
  | [] => []
  | item :: items => jsonValueToGraphql item :: jsonItemsToGraphql items

def jsonEntriesToGraphql : List (String × Json) → List String
  | [] => []
  | (k, v) :: entries => (k ++ ": " ++ jsonValueToGraphql v) :: jsonEntriesToGraphql entries

end

variable (fromStr : String → Option Json)

/-- `serde_json::from_str::<String>`, or the text itself. -/
def unquoted (valueJson : String) : String := ((fromStr valueJson).bind Json.asStr?).getD valueJson

def argValueToGraphql (arg : GraphQLArgument) : String :=
  match arg.valueType with
  | .variable => unquoted fromStr arg.valueJson
  | .object =>
    match fromStr arg.valueJson with
    | some value => jsonValueToGraphql value
    | none => arg.valueJson
  | .enum => unquoted fromStr arg.valueJson
  | _ => arg.valueJson

def serializeArg (arg : GraphQLArgument) : String := arg.name ++ ": " ++ argValueToGraphql fromStr arg

mutual

def serializeField : ParsedSelection → String
  | .mk name aliasName arguments nestedFields _ =>
    (match aliasName with
      | some aliasName => aliasName ++ ": "
      | none => "") ++ name ++
    (if arguments.isEmpty then ""
      else "(" ++ String.intercalate ", " (arguments.map (serializeArg fromStr)) ++ ")") ++
    (if nestedFields.isEmpty then ""
      else " \x7b " ++ String.intercalate " " (serializeFields nestedFields) ++ " \x7d")

def serializeFields : List ParsedSelection → List String
  | [] => []
  | sel :: sels => serializeField sel :: serializeFields sels

end

def fieldSelectionToQuery (sel : ParsedSelection) : String := "\x7b " ++ serializeField fromStr sel ++ " \x7d"

/-! ### Execution -/

/-- An executor with the matcher of the crate. -/
def executor (lib : Library) (x : Executor) : Executor := { x with matcher := matchQuery lib x.schema }

/-- `execute_regular_query` once the query is matched. -/
def executeMatched (x : Executor) (vars : Option Json) (m : QueryMatch) : Exec Json :=
  if m.queryDef.requiresRole.isSome then .lift (.error (notFound m.queryDef))
  else if !m.queryDef.injectParams.isEmpty then .lift (.error (calledWithoutContext m.queryDef))
  else if m.queryDef.relay then x.executeRelayQuery m vars none
  else do
    let request ← Traced.lift (x.publicRequest m)
    let results ← x.executeWithProjection request
    return x.publicResponse m results

theorem executeRegularQuery_eq (x : Executor) (query : String) (vars : Option Json) :
    x.executeRegularQuery query vars = Traced.lift (x.matcher query vars) >>= executeMatched x vars := rfl

/-- `response["data"][key]`; a missing key gives `null`. -/
def dataAt (key : String) (response : Json) : Json :=
  ((response.get? "data").bind (Json.get? key)).getD .null

/-- `execute_parallel`: the response key and the data of each root. -/
def executeParallel (lib : Library) (x : Executor) (parsed : ParsedQuery) (vars : Option Json) :
    Exec (List (String × Json)) :=
  parsed.selections.mapM fun sel => do
    let response ← (executor lib x).executeRegularQuery (fieldSelectionToQuery lib.fromStr sel) vars
    return (sel.responseKey, dataAt sel.responseKey response)

/-- A root of a parsed query by itself, with the query's fragments. -/
def ParsedQuery.alone (parsed : ParsedQuery) (sel : ParsedSelection) : ParsedQuery :=
  ⟨sel.name, [sel], parsed.fragments⟩

/-- The root by itself, run like any parsed query. -/
def executeAlone (lib : Library) (x : Executor) (parsed : ParsedQuery) (vars : Option Json)
    (sel : ParsedSelection) : Exec Json :=
  Traced.lift (matchParsed lib x.schema (parsed.alone sel) vars) >>= executeMatched (executor lib x) vars

end FraiseQL.Graphql
