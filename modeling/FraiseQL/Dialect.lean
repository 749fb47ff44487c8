import FraiseQL.SqlLex
import FraiseQL.WhereClause

/-! The SQL dialects (`dialect/*.rs`, `path_escape.rs`). A rendering function returns a template: text with
holes for the field expression and for the placeholders of the values the condition binds, as the format
strings of the source have them. The row-view helpers are left out. -/

namespace FraiseQL

open SqlLex

/-- What fills a hole of a template: the expression of the field, or the placeholder of the value the
condition binds at this position. -/
inductive Hole where
  | field
  | param (i : Nat)
  deriving DecidableEq

inductive Frag where
  | text (cs : List Char)
  | hole (h : Hole)
  deriving DecidableEq

abbrev Template := List Frag

/-- Fixed text. -/
def txt (s : String) {cs : List Char} (_ : s = String.ofList cs := by rfl) : Template := [.text cs]

/-- `parts.join(sep)`. -/
def joinWith (sep : Template) : List Template → Template
  | [] => []
  | [t] => t
  | t :: ts => t ++ sep ++ joinWith sep ts

/-- The dialects, one for each implementation of `SqlDialect`. -/
inductive Dialect where
  | postgres
  | mysql
  | sqlite
  | sqlserver
  deriving DecidableEq

namespace Dialect

def name : Dialect → String
  | .postgres => "PostgreSQL"
  | .mysql => "MySQL"
  | .sqlite => "SQLite"
  | .sqlserver => "SQL Server"

/-- `UnsupportedOperator`, as the generator reports it. -/
def unsupported (d : Dialect) (operator : String) : FraiseQLError :=
  .validation ("operator `" ++ operator ++ "` is not supported by the " ++ d.name ++ " dialect") none

def identifierQuote : Dialect → Quote
  | .mysql => .backtick
  | .sqlserver => .bracket
  | _ => .double

def quoteIdentifier (d : Dialect) (name : List Char) : List Char := quote d.identifierQuote name

/-- The segments of a PostgreSQL JSONB path, each escaped by `escape_postgres_jsonb_segment`: the last one
is extracted as text. A path of one segment has its own branch in the source, with the same text. -/
def postgresPath : List String → List Char
  | [] => []
  | [segment] => lit "->>" ++ quote .single segment.toList
  | segment :: rest => lit "->" ++ quote .single segment.toList ++ postgresPath rest

/-- The JSON path literal of the other dialects: `escape_mysql_json_path`, `escape_sqlite_json_path` and
`escape_sqlserver_json_path` all double the single quotes. -/
def jsonPathLiteral (path : List String) : List Char :=
  quote .single (lit "$." ++ (String.intercalate "." path).toList)

/-- `json_extract_scalar("data", path)`. -/
def jsonExtractScalar (path : List String) : Dialect → List Char
  | .postgres => lit "data" ++ postgresPath path
  | .mysql => lit "JSON_UNQUOTE(JSON_EXTRACT(data, " ++ jsonPathLiteral path ++ lit "))"
  | .sqlite => lit "json_extract(data, " ++ jsonPathLiteral path ++ lit ")"
  | .sqlserver => lit "JSON_VALUE(data, " ++ jsonPathLiteral path ++ lit ")"

def placeholder (n : Nat) : Dialect → List Char
  | .postgres => '$' :: Nat.toDigits 10 n
  | .mysql => ['?']
  | .sqlite => ['?']
  | .sqlserver => '@' :: 'p' :: Nat.toDigits 10 n

/-! ### Casts -/

def castToNumeric (expr : Template) : Dialect → Template
  | .postgres => txt "(" ++ expr ++ txt ")::numeric"
  | .mysql => txt "CAST(" ++ expr ++ txt " AS DECIMAL)"
  | .sqlite => txt "CAST(" ++ expr ++ txt " AS REAL)"
  | .sqlserver => txt "CAST(" ++ expr ++ txt " AS FLOAT)"

def castToBoolean (expr : Template) : Dialect → Template
  | .postgres => txt "(" ++ expr ++ txt ")::boolean"
  | _ => expr

def castParamNumeric (p : Template) : Dialect → Template
  | .postgres => txt "(" ++ p ++ txt "::text)::numeric"
  | _ => p

/-- `cast_native_param`, called with a nonempty cast only. -/
def castNativeParam (p : Template) : Dialect → PgCast → Template
  | .postgres, .none => p
  | .postgres, .uuid => p ++ txt "::text::uuid"
  | .postgres, .int4 => p ++ txt "::text::int4"
  | .postgres, .int8 => p ++ txt "::text::int8"
  | .postgres, .int2 => p ++ txt "::text::int2"
  | .postgres, .bool => p ++ txt "::bool"
  | .postgres, .numeric => p ++ txt "::text::numeric"
  | .postgres, .float8 => p ++ txt "::text::float8"
  | .postgres, .float4 => p ++ txt "::text::float4"
  | .postgres, .timestamp => p ++ txt "::text::timestamp"
  | .postgres, .timestamptz => p ++ txt "::text::timestamptz"
  | .postgres, .date => p ++ txt "::text::date"
  | .postgres, .time => p ++ txt "::text::time"
  | _, _ => p

/-! ### Patterns and constants -/

def likeSql (lhs rhs : Template) : Dialect → Template
  | .sqlserver => lhs ++ txt " LIKE " ++ rhs ++ txt " COLLATE Latin1_General_CS_AS"
  | _ => lhs ++ txt " LIKE " ++ rhs

def ilikeSql (lhs rhs : Template) : Dialect → Template
  | .postgres => lhs ++ txt " ILIKE " ++ rhs
  | .sqlserver => lhs ++ txt " LIKE " ++ rhs ++ txt " COLLATE Latin1_General_CI_AI"
  | _ => txt "LOWER(" ++ lhs ++ txt ") LIKE LOWER(" ++ rhs ++ txt ")"

def concatSql (parts : List Template) : Dialect → Template
  | .mysql => txt "CONCAT(" ++ joinWith (txt ", ") parts ++ txt ")"
  | .sqlserver => joinWith (txt " + ") parts
  | _ => joinWith (txt " || ") parts

def alwaysFalse : Dialect → Template
  | .sqlite | .sqlserver => txt "1=0"
  | _ => txt "FALSE"

def alwaysTrue : Dialect → Template
  | .sqlite | .sqlserver => txt "1=1"
  | _ => txt "TRUE"

/-- `neq_operator`, with the blanks around it. -/
def neqOperator : Dialect → Template
  | .sqlserver => txt " <> "
  | _ => txt " != "

def jsonArrayLength (expr : Template) : Dialect → Template
  | .postgres => txt "jsonb_array_length(" ++ expr ++ txt "::jsonb)"
  | .mysql => txt "JSON_LENGTH(" ++ expr ++ txt ")"
  | .sqlite => txt "json_array_length(" ++ expr ++ txt ")"
  | .sqlserver => txt "(SELECT COUNT(*) FROM OPENJSON(" ++ expr ++ txt "))"

/-! ### Operators a dialect may not have -/

def arrayContainsSql (lhs rhs : Template) : Dialect → Except FraiseQLError Template
  | .postgres => .ok (lhs ++ txt "::jsonb @> " ++ rhs ++ txt "::jsonb")
  | .mysql => .ok (txt "JSON_CONTAINS(" ++ lhs ++ txt ", " ++ rhs ++ txt ")")
  | .sqlite => .ok (txt "EXISTS (SELECT 1 FROM json_each(" ++ lhs ++ txt ") WHERE value = json(" ++ rhs ++
      txt "))")
  | .sqlserver => .ok (txt "EXISTS (SELECT 1 FROM OPENJSON(" ++ lhs ++ txt ") WHERE value = " ++ rhs ++
      txt ")")

def arrayContainedBySql (lhs rhs : Template) : Dialect → Except FraiseQLError Template
  | .postgres => .ok (lhs ++ txt "::jsonb <@ " ++ rhs ++ txt "::jsonb")
  | d => .error (d.unsupported "ArrayContainedBy")

def arrayOverlapsSql (lhs rhs : Template) : Dialect → Except FraiseQLError Template
  | .postgres => .ok (lhs ++ txt "::jsonb && " ++ rhs ++ txt "::jsonb")
  | .mysql => .ok (txt "JSON_OVERLAPS(" ++ lhs ++ txt ", " ++ rhs ++ txt ")")
  | d => .error (d.unsupported "ArrayOverlaps")

def ftsMatchesSql (expr param : Template) : Dialect → Except FraiseQLError Template
  | .postgres => .ok (txt "to_tsvector(" ++ expr ++ txt ") @@ to_tsquery(" ++ param ++ txt ")")
  | .mysql => .ok (txt "MATCH(" ++ expr ++ txt ") AGAINST(" ++ param ++ txt " IN NATURAL LANGUAGE MODE)")
  | .sqlserver => .ok (txt "CONTAINS(" ++ expr ++ txt ", " ++ param ++ txt ")")
  | d => .error (d.unsupported "Matches")

def ftsPlainQuerySql (expr param : Template) : Dialect → Except FraiseQLError Template
  | .postgres => .ok (txt "to_tsvector(" ++ expr ++ txt ") @@ plainto_tsquery(" ++ param ++ txt ")")
  | .mysql => .ok (txt "MATCH(" ++ expr ++ txt ") AGAINST(" ++ param ++ txt " IN BOOLEAN MODE)")
  | .sqlserver => .ok (txt "CONTAINS(" ++ expr ++ txt ", " ++ param ++ txt ")")
  | d => .error (d.unsupported "PlainQuery")

def ftsPhraseQuerySql (expr param : Template) : Dialect → Except FraiseQLError Template
  | .postgres => .ok (txt "to_tsvector(" ++ expr ++ txt ") @@ phraseto_tsquery(" ++ param ++ txt ")")
  | .mysql => .ok (txt "MATCH(" ++ expr ++ txt ") AGAINST(" ++ param ++ txt " IN NATURAL LANGUAGE MODE)")
  | .sqlserver => .ok (txt "FREETEXT(" ++ expr ++ txt ", " ++ param ++ txt ")")
  | d => .error (d.unsupported "PhraseQuery")

def ftsWebsearchQuerySql (expr param : Template) : Dialect → Except FraiseQLError Template
  | .postgres => .ok (txt "to_tsvector(" ++ expr ++ txt ") @@ websearch_to_tsquery(" ++ param ++ txt ")")
  | d => .error (d.unsupported "WebsearchQuery")

def regexSql (lhs rhs : Template) (caseInsensitive negate : Bool) : Dialect → Except FraiseQLError Template
  | .postgres => .ok (lhs ++
      (match caseInsensitive, negate with
        | false, false => txt " ~ "
        | true, false => txt " ~* "
        | false, true => txt " !~ "
        | true, true => txt " !~* ") ++ rhs)
  | .mysql => .ok (if negate then lhs ++ txt " NOT REGEXP " ++ rhs else lhs ++ txt " REGEXP " ++ rhs)
  | d => .error (d.unsupported "Regex")

/-- `vector_distance_sql`; the operator is given with the blanks around it. -/
def vectorDistanceSql (pgOp lhs rhs : Template) : Dialect → Except FraiseQLError Template
  | .postgres => .ok (lhs ++ txt "::vector" ++ pgOp ++ rhs ++ txt "::vector")
  | d => .error (d.unsupported "VectorDistance")

def jaccardDistanceSql (lhs rhs : Template) : Dialect → Except FraiseQLError Template
  | .postgres => .ok (txt "(" ++ lhs ++ txt ")::text[] <%> (" ++ rhs ++ txt ")::text[]")
  | d => .error (d.unsupported "JaccardDistance")

/-- The checks of `inet_check_sql`. -/
inductive InetCheck where
  | isIPv4
  | isIPv6
  | isPrivate
  | isPublic
  | isLoopback
  deriving DecidableEq

/-- The private ranges, between the parentheses of `IsPrivate` and `IsPublic`. -/
def privateRanges (lhs : Template) : Template :=
  lhs ++ txt "::inet << '10.0.0.0/8'::inet OR " ++ lhs ++ txt "::inet << '172.16.0.0/12'::inet OR " ++ lhs ++
    txt "::inet << '192.168.0.0/16'::inet OR " ++ lhs ++ txt "::inet << '169.254.0.0/16'::inet"

def inetCheckSql (lhs : Template) (check : InetCheck) : Dialect → Except FraiseQLError Template
  | .postgres => .ok (match check with
      | .isIPv4 => txt "family(" ++ lhs ++ txt "::inet) = 4"
      | .isIPv6 => txt "family(" ++ lhs ++ txt "::inet) = 6"
      | .isPrivate => txt "(" ++ privateRanges lhs ++ txt ")"
      | .isPublic => txt "NOT (" ++ privateRanges lhs ++ txt ")"
      | .isLoopback => txt "(family(" ++ lhs ++ txt "::inet) = 4 AND " ++ lhs ++
          txt "::inet << '127.0.0.0/8'::inet) OR (family(" ++ lhs ++ txt "::inet) = 6 AND " ++ lhs ++
          txt "::inet << '::1/128'::inet)")
  | d => .error (d.unsupported "InetCheck")

def inetBinarySql (pgOp lhs rhs : Template) : Dialect → Except FraiseQLError Template
  | .postgres => .ok (lhs ++ txt "::inet" ++ pgOp ++ rhs ++ txt "::inet")
  | d => .error (d.unsupported "InetBinaryOp")

/-- `ltree_binary_sql`; the type of the right side is given with its `::`. -/
def ltreeBinarySql (pgOp lhs rhs rhsType : Template) : Dialect → Except FraiseQLError Template
  | .postgres => .ok (lhs ++ txt "::ltree" ++ pgOp ++ rhs ++ rhsType)
  | d => .error (d.unsupported "LTreeBinaryOp")

def ltreeAnyLquerySql (lhs : Template) (placeholders : List Template) :
    Dialect → Except FraiseQLError Template
  | .postgres => .ok (lhs ++ txt "::ltree ? ARRAY[" ++ joinWith (txt ", ") placeholders ++ txt "]")
  | d => .error (d.unsupported "MatchesAnyLquery")

def ltreeDepthSql (op lhs rhs : Template) : Dialect → Except FraiseQLError Template
  | .postgres => .ok (txt "nlevel(" ++ lhs ++ txt "::ltree)" ++ op ++ rhs)
  | d => .error (d.unsupported "LTreeDepth")

def ltreeLcaSql (lhs : Template) (placeholders : List Template) : Dialect → Except FraiseQLError Template
  | .postgres => .ok (lhs ++ txt "::ltree = lca(ARRAY[" ++ joinWith (txt ", ") placeholders ++ txt "])")
  | d => .error (d.unsupported "Lca")

/-! ### Lexical rules -/

/-- The lexical rules of the databases. MySQL reads a backslash inside a string literal as an escape unless
`NO_BACKSLASH_ESCAPES` is set; `backslash` is the default mode. -/
def rules (backslash : Bool) : Dialect → Rules
  | .postgres => ⟨[.single, .double], [], '$', Char.isDigit, false, false, true⟩
  | .mysql => ⟨[.single, .double, .backtick], if backslash then [.single, .double] else [], '?',
      fun _ => false, true, true, false⟩
  | .sqlite => ⟨[.single, .double, .backtick, .bracket], [], '?', Char.isDigit, false, false, false⟩
  | .sqlserver => ⟨[.single, .double, .bracket], [], '@', fun _ => true, false, false, true⟩

end Dialect

end FraiseQL
