import FraiseQL.SqlLex
import FraiseQL.Outcome
import FraiseQL.WhereClause

/-! The literal-embedding WHERE generator of the wire adapter (`where_sql_generator.rs`). The SQL of a clause
is a list of pieces, rendered to text at the end: the escaping that the source applies to a string is the
rendering of the piece the string is in. Messages that show the `Debug` text of a value end before it. -/

namespace FraiseQL.WhereSqlGenerator

open SqlLex

/-- A piece of SQL. -/
inductive Piece where
  | text (cs : List Char)
  | path (segments : List String)
  | literal (content : List Char)
  | column (name : String)
  deriving DecidableEq

abbrev Sql := List Piece

def maxSqlValueBytes : Nat := 65536

/-- The size check of `escape_sql_string`; what it escapes is the content. -/
def escapeSqlString (s : String) : Except FraiseQLError (List Char) :=
  if maxSqlValueBytes < s.utf8ByteSize then
    .error (.validation ("String value exceeds maximum allowed size for SQL embedding (" ++
      toString s.utf8ByteSize ++ " bytes, limit is " ++ toString maxSqlValueBytes ++ " bytes)") none)
  else .ok s.toList

/-- `escape_sql_string` of every segment of a path. -/
def escapeSegments : List String → Except FraiseQLError Unit
  | [] => .ok ()
  | segment :: path => do
    let _ ← escapeSqlString segment
    escapeSegments path

def buildJsonPath (path : List String) : Except FraiseQLError Piece := do
  escapeSegments path
  return .path path

/-- An operator the wire protocol has no SQL for. -/
def unsupported (kind debug : String) : Except FraiseQLError (List Char) :=
  .error (.internal (kind ++ " in fraiseql-wire: " ++ debug))

def operatorToSql : WhereOperator → Except FraiseQLError (List Char)
  | .eq => .ok (lit "=")
  | .neq => .ok (lit "!=")
  | .gt => .ok (lit ">")
  | .gte => .ok (lit ">=")
  | .lt => .ok (lit "<")
  | .lte => .ok (lit "<=")
  | .isIn => .ok (lit "= ANY")
  | .nin => .ok (lit "!= ALL")
  | .contains => .ok (lit "LIKE")
  | .icontains => .ok (lit "ILIKE")
  | .startswith => .ok (lit "LIKE")
  | .istartswith => .ok (lit "ILIKE")
  | .endswith => .ok (lit "LIKE")
  | .iendswith => .ok (lit "ILIKE")
  | .like => .ok (lit "LIKE")
  | .ilike => .ok (lit "ILIKE")
  | .nlike => .ok (lit "NOT LIKE")
  | .nilike => .ok (lit "NOT ILIKE")
  | .regex => .ok (lit "~")
  | .iregex => .ok (lit "~*")
  | .nregex => .ok (lit "!~")
  | .niregex => .ok (lit "!~*")
  | .arrayContains => .ok (lit "@>")
  | .arrayContainedBy => .ok (lit "<@")
  | .arrayOverlaps => .ok (lit "&&")
  | .isNull => .error (.internal "IsNull should be handled separately")
  | .lenEq => unsupported "Array length operators not yet supported" "LenEq"
  | .lenGt => unsupported "Array length operators not yet supported" "LenGt"
  | .lenLt => unsupported "Array length operators not yet supported" "LenLt"
  | .lenGte => unsupported "Array length operators not yet supported" "LenGte"
  | .lenLte => unsupported "Array length operators not yet supported" "LenLte"
  | .lenNeq => unsupported "Array length operators not yet supported" "LenNeq"
  | .l2Distance => unsupported "Vector operations not supported" "L2Distance"
  | .cosineDistance => unsupported "Vector operations not supported" "CosineDistance"
  | .l1Distance => unsupported "Vector operations not supported" "L1Distance"
  | .hammingDistance => unsupported "Vector operations not supported" "HammingDistance"
  | .innerProduct => unsupported "Vector operations not supported" "InnerProduct"
  | .jaccardDistance => unsupported "Vector operations not supported" "JaccardDistance"
  | .matches => unsupported "Full-text search operators not yet supported" "Matches"
  | .plainQuery => unsupported "Full-text search operators not yet supported" "PlainQuery"
  | .phraseQuery => unsupported "Full-text search operators not yet supported" "PhraseQuery"
  | .websearchQuery => unsupported "Full-text search operators not yet supported" "WebsearchQuery"
  | .isIPv4 => unsupported "Advanced operators not yet supported" "IsIPv4"
  | .isIPv6 => unsupported "Advanced operators not yet supported" "IsIPv6"
  | .isPrivate => unsupported "Advanced operators not yet supported" "IsPrivate"
  | .isPublic => unsupported "Advanced operators not yet supported" "IsPublic"
  | .isLoopback => unsupported "Advanced operators not yet supported" "IsLoopback"
  | .inSubnet => unsupported "Advanced operators not yet supported" "InSubnet"
  | .containsSubnet => unsupported "Advanced operators not yet supported" "ContainsSubnet"
  | .containsIP => unsupported "Advanced operators not yet supported" "ContainsIP"
  | .overlaps => unsupported "Advanced operators not yet supported" "Overlaps"
  | .strictlyContains => unsupported "Advanced operators not yet supported" "StrictlyContains"
  | .ancestorOf => unsupported "Advanced operators not yet supported" "AncestorOf"
  | .descendantOf => unsupported "Advanced operators not yet supported" "DescendantOf"
  | .matchesLquery => unsupported "Advanced operators not yet supported" "MatchesLquery"
  | .matchesLtxtquery => unsupported "Advanced operators not yet supported" "MatchesLtxtquery"
  | .matchesAnyLquery => unsupported "Advanced operators not yet supported" "MatchesAnyLquery"
  | .depthEq => unsupported "Advanced operators not yet supported" "DepthEq"
  | .depthNeq => unsupported "Advanced operators not yet supported" "DepthNeq"
  | .depthGt => unsupported "Advanced operators not yet supported" "DepthGt"
  | .depthGte => unsupported "Advanced operators not yet supported" "DepthGte"
  | .depthLt => unsupported "Advanced operators not yet supported" "DepthLt"
  | .depthLte => unsupported "Advanced operators not yet supported" "DepthLte"
  | .lca => unsupported "Advanced operators not yet supported" "Lca"
  | .extended _ => unsupported "Advanced operators not yet supported" "Extended"

/-! ### Values -/

/-- The wildcards of the pattern operators. -/
def withWildcards (op : WhereOperator) (content : List Char) : List Char :=
  match op with
  | .contains | .icontains => '%' :: content ++ ['%']
  | .startswith | .istartswith => content ++ ['%']
  | .endswith | .iendswith => '%' :: content
  | _ => content

/-- The scalar arms of `value_to_sql`. -/
def scalarToSql (value : Json) (op : WhereOperator) : Except FraiseQLError Sql :=
  match value with
  | .null => .ok [.text (lit "NULL")]
  | .bool b => .ok [.text (if b then lit "true" else lit "false")]
  | .num n => .ok [.text (Json.numberText n).toList]
  | .str s => (escapeSqlString s).map fun content => [.literal (withWildcards op content)]
  | _ => .error (.internal "Unsupported value type for operator: ")

/-- The items of an array, each rendered under `Eq`, where arrays and objects have no rendering. -/
def itemsToSql : List Json → Except FraiseQLError (List Sql)
  | [] => .ok []
  | item :: items => do
    let part ← scalarToSql item .eq
    let parts ← itemsToSql items
    return part :: parts

/-- `parts.join(sep)`. -/
def joinSql (sep : List Char) (parts : List Sql) : Sql := joined (.text sep) parts

/-- A JSON value as a literal. -/
def jsonToSql (value : Json) : Except FraiseQLError Sql :=
  if maxSqlValueBytes < value.text.utf8ByteSize then
    .error (.validation ("JSONB value exceeds maximum allowed size for SQL embedding (" ++
      toString value.text.utf8ByteSize ++ " bytes, limit is " ++ toString maxSqlValueBytes ++ " bytes)") none)
  else .ok [.literal value.text.toList, .text (lit "::jsonb")]

def valueToSql (value : Json) (op : WhereOperator) : Except FraiseQLError Sql :=
  match value, op with
  | .arr items, .isIn | .arr items, .nin => (itemsToSql items).map fun parts =>
    .text (lit "ARRAY[") :: joinSql (lit ", ") parts ++ [.text (lit "]")]
  | .arr _, .arrayContains | .arr _, .arrayContainedBy | .arr _, .arrayOverlaps => jsonToSql value
  | value, op => scalarToSql value op

/-! ### Clauses -/

/-- `{subject} {operator} {value}`. -/
def comparison (subject : Piece) (op : WhereOperator) (value : Json) : Except FraiseQLError Sql := do
  let sqlOp ← operatorToSql op
  let sqlValue ← valueToSql value op
  return subject :: .text (' ' :: sqlOp ++ [' ']) :: sqlValue

def generateFieldPredicate (path : List String) (op : WhereOperator) (value : Json) :
    Except FraiseQLError Sql := do
  let jsonPath ← buildJsonPath path
  if op = .isNull then
    return [jsonPath, .text (if value.asBool?.getD true then lit " IS NULL" else lit " IS NOT NULL")]
  else comparison jsonPath op value

mutual

/-- The pieces of `to_sql`. -/
def toPieces : WhereClause → Except FraiseQLError Sql
  | .field path op value => generateFieldPredicate path op value
  | .and clauses =>
    if clauses.isEmpty then .ok [.text (lit "TRUE")]
    else (toPiecesAll clauses).map fun parts =>
      .text (lit "(") :: joinSql (lit " AND ") parts ++ [.text (lit ")")]
  | .or clauses =>
    if clauses.isEmpty then .ok [.text (lit "FALSE")]
    else (toPiecesAll clauses).map fun parts =>
      .text (lit "(") :: joinSql (lit " OR ") parts ++ [.text (lit ")")]
  | .not clause => (toPieces clause).map fun part => .text (lit "NOT (") :: part ++ [.text (lit ")")]
  | .nativeField column _ op value => do
    let _ ← escapeSqlString column
    comparison (.column column) op value

def toPiecesAll : List WhereClause → Except FraiseQLError (List Sql)
  | [] => .ok []
  | clause :: clauses => do
    let part ← toPieces clause
    let parts ← toPiecesAll clauses
    return part :: parts

end

/-! ### Text -/

/-- The text of a JSON path; `#>` takes all segments but the last in one literal. -/
def jsonPathText : List String → List Char
  | [] => lit "data"
  | [field] => lit "data->>" ++ quote .single field.toList
  | path => lit "data#>" ++ quote .single ('\x7b' :: (String.intercalate "," path.dropLast).toList ++ ['\x7d']) ++
      (lit "->>" ++ quote .single (path.getLastD "").toList)

/-- A column is put between double quotes, with its single quotes doubled. -/
def Piece.render : Piece → List Char
  | .text cs => cs
  | .path segments => jsonPathText segments
  | .literal content => quote .single content
  | .column name => '"' :: doubled .single name.toList ++ ['"']

def renderSql (sql : Sql) : List Char := sql.flatMap Piece.render

def toSql (clause : WhereClause) : Except FraiseQLError String :=
  (toPieces clause).map fun sql => String.ofList (renderSql sql)

end FraiseQL.WhereSqlGenerator
