import FraiseQL.AggregateFilterAgreement
import FraiseQL.SqlLikeEscapes
import FraiseQL.WhereSqlGenerator

/-! The predicates of PostgreSQL that the two WHERE generators write, and what they are worth on a document. A
predicate is written out as parts, from which both texts come. Its verdict follows the types: what PostgreSQL has no
operator for, cannot parse or cannot cast has none. The documented behaviour of the database that the verdicts rest on
is a parameter. -/

namespace FraiseQL.PostgresPredicate

open SqlLex SqlLike
open WhereGenerator (Formula)
open Aggregate.SqlGenerator (and3 or3)

/-! ### Predicates -/

inductive CompareOp where
  | eq | neq | gt | gte | lt | lte

inductive JsonOp where
  | contains | containedBy | overlaps

inductive Operator where
  | compare (op : CompareOp)
  | like (insensitive negated : Bool)
  | regex (insensitive negated : Bool)
  | json (op : JsonOp)

def CompareOp.sql : CompareOp → List Char
  | .eq => lit "="
  | .neq => lit "!="
  | .gt => lit ">"
  | .gte => lit ">="
  | .lt => lit "<"
  | .lte => lit "<="

def JsonOp.sql : JsonOp → List Char
  | .contains => lit "@>"
  | .containedBy => lit "<@"
  | .overlaps => lit "&&"

def Operator.sql : Operator → List Char
  | .compare op => op.sql
  | .like false false => lit "LIKE"
  | .like true false => lit "ILIKE"
  | .like false true => lit "NOT LIKE"
  | .like true true => lit "NOT ILIKE"
  | .regex false false => lit "~"
  | .regex true false => lit "~*"
  | .regex false true => lit "!~"
  | .regex true true => lit "!~*"
  | .json op => op.sql

/-- An operator with the blanks around it. -/
def spaced (sql : List Char) : List Char := ' ' :: sql ++ [' ']

/-- A literal; a number has its text. -/
inductive Literal where
  | null
  | bool (b : Bool)
  | num (n : JsonNumber)
  | str (content : List Char)
  /-- `'...'::jsonb` -/
  | json (content : List Char)
  deriving DecidableEq

/-- What a predicate is about; a column has its identifier as it is written. -/
inductive Source where
  | document
  /-- `data->'a'->>'b'` -/
  | arrows (path : List String) (last : String)
  /-- `data#>'{a}'->>'b'` -/
  | hash (path : List String) (last : String)
  | column (identifier : List Char)

inductive Predicate where
  | isNull (negated : Bool) (source : Source)
  | binary (source : Source) (op : Operator) (value : Literal)
  /-- both sides cast to `numeric`, the value by way of its text -/
  | numeric (source : Source) (op : CompareOp) (value : Literal)
  /-- the left side cast to `boolean` -/
  | boolean (source : Source) (op : CompareOp) (value : Literal)
  /-- a pattern that is a value with wildcards concatenated to it -/
  | wildcards (source : Source) (insensitive before after : Bool) (value : Literal)
  /-- `NOT (... LIKE ...)` -/
  | notLike (source : Source) (insensitive : Bool) (value : Literal)
  | inList (source : Source) (negated : Bool) (values : List Literal)
  /-- `= ANY` or `!= ALL`, with an array that is not in parentheses -/
  | anyArray (source : Source) (negated : Bool) (values : List Literal)
  /-- both sides cast to `jsonb`, the left one without parentheses -/
  | jsonb (source : Source) (op : JsonOp) (value : Literal)
  /-- a column compared with a value that is cast -/
  | native (identifier : List Char) (op : CompareOp) (value : Literal) (pgCast : PgCast)

inductive Part where
  | text (cs : List Char)
  | source (s : Source)
  | value (v : Literal)

/-- The cast of a value, as `cast_native_param` writes it. -/
def castText : PgCast → List Char
  | .none => []
  | .uuid => lit "::text::uuid"
  | .int4 => lit "::text::int4"
  | .int8 => lit "::text::int8"
  | .int2 => lit "::text::int2"
  | .bool => lit "::bool"
  | .numeric => lit "::text::numeric"
  | .float8 => lit "::text::float8"
  | .float4 => lit "::text::float4"
  | .timestamp => lit "::text::timestamp"
  | .timestamptz => lit "::text::timestamptz"
  | .date => lit "::text::date"
  | .time => lit "::text::time"

def listed (values : List Literal) : List Part := joined (.text (lit ", ")) (values.map fun v => [.value v])

def wildcard (present : Bool) (parts : List Part) : List Part := if present then parts else []

/-- A predicate as it is written. -/
def Predicate.parts : Predicate → List Part
  | .isNull negated s => [.source s, .text (if negated then lit " IS NOT NULL" else lit " IS NULL")]
  | .binary s op v => [.source s, .text (spaced op.sql), .value v]
  | .numeric s op v => [.text (lit "("), .source s, .text (lit ")::numeric"), .text (spaced op.sql), .text (lit "("),
      .value v, .text (lit "::text)::numeric")]
  | .boolean s op v => [.text (lit "("), .source s, .text (lit ")::boolean"), .text (spaced op.sql), .value v]
  | .wildcards s insensitive before after v =>
    [.source s, .text (spaced (Operator.like insensitive false).sql)] ++
      wildcard before [.text (lit "'%'"), .text (lit " || ")] ++ [.value v] ++
      wildcard after [.text (lit " || "), .text (lit "'%'")]
  | .notLike s insensitive v => [.text (lit "NOT ("), .source s, .text (spaced (Operator.like insensitive false).sql),
      .value v, .text (lit ")")]
  | .inList s negated vs => wildcard negated [.text (lit "NOT (")] ++ [.source s, .text (lit " IN (")] ++ listed vs ++
      [.text (lit ")")] ++ wildcard negated [.text (lit ")")]
  | .anyArray s negated vs => [.source s, .text (if negated then lit " != ALL " else lit " = ANY "),
      .text (lit "ARRAY[")] ++ listed vs ++ [.text (lit "]")]
  | .jsonb s op v => [.source s, .text (lit "::jsonb" ++ spaced op.sql), .value v, .text (lit "::jsonb")]
  | .native identifier op v pgCast => [.source (.column identifier), .text (spaced op.sql), .value v] ++
      if pgCast = .none then [] else [.text (castText pgCast)]

/-! ### Text -/

/-- `'{a,b}'`, the path that `#>` takes. -/
def pathLiteral (path : List String) : List Char := '\x7b' :: (String.intercalate "," path).toList ++ ['\x7d']

def Source.render : Source → List Char
  | .document => lit "data"
  | .arrows path last => lit "data" ++ Dialect.postgresPath (path ++ [last])
  | .hash path last => lit "data#>" ++ quote .single (pathLiteral path) ++ (lit "->>" ++ quote .single last.toList)
  | .column identifier => identifier

def Literal.render : Literal → List Char
  | .null => lit "NULL"
  | .bool b => if b then lit "true" else lit "false"
  | .num n => (Json.numberText n).toList
  | .str content => quote .single content
  | .json content => quote .single content ++ lit "::jsonb"

def Part.render : Part → List Char
  | .text cs => cs
  | .source s => s.render
  | .value v => v.render

def renderParts (parts : List Part) : List Char := parts.flatMap Part.render

mutual

/-- A formula of predicates as it is written. -/
def formulaParts : Formula Predicate → List Part
  | .leaf p => p.parts
  | .and fs =>
    if fs.isEmpty then [.text (lit "TRUE")]
    else .text (lit "(") :: joined (.text (lit " AND ")) (formulaPartsAll fs) ++ [.text (lit ")")]
  | .or fs =>
    if fs.isEmpty then [.text (lit "FALSE")]
    else .text (lit "(") :: joined (.text (lit " OR ")) (formulaPartsAll fs) ++ [.text (lit ")")]
  | .not f => .text (lit "NOT (") :: formulaParts f ++ [.text (lit ")")]

def formulaPartsAll : List (Formula Predicate) → List (List Part)
  | [] => []
  | f :: fs => formulaParts f :: formulaPartsAll fs

end

/-! ### PostgreSQL -/

/-- What a predicate is worth on a row: true, false or unknown, or nothing when the database rejects the statement or
fails. -/
abbrev Verdict := Option (Option Bool)

/-- A value means the same to a column of a type as a literal and with the cast to the type. -/
def CastAlike : PgCast → Literal → Prop
  | _, .null | _, .str _ | _, .bool _ => True
  | .numeric, .num _ | .float8, .num _ | .uuid, .num _ => True
  | .int2, .num (.int n) => -2 ^ 15 ≤ n.value ∧ n.value < 2 ^ 15
  | .int4, .num (.int n) => -2 ^ 31 ≤ n.value ∧ n.value < 2 ^ 31
  | .int8, .num (.int n) => -2 ^ 63 ≤ n.value ∧ n.value < 2 ^ 63
  | _, _ => False

/-- The documented behaviour of PostgreSQL. -/
structure Postgres where
  Numeric : Type
  /-- the casts to `numeric`, `boolean` and `jsonb`, of a text and of a document -/
  numericOf : List Char → Option Numeric
  jsonbNumeric : Json → Option Numeric
  compareNumeric : CompareOp → Numeric → Numeric → Bool
  booleanOf : List Char → Option Bool
  jsonbBoolean : Json → Option Bool
  compareBoolean : CompareOp → Bool → Bool → Bool
  jsonbOf : List Char → Option Json
  compareJsonb : CompareOp → Json → Json → Bool
  /-- `@>` -/
  containsJsonb : Json → Json → Bool
  /-- the text of a value that is no string and not `null` -/
  textOf : Json → List Char
  /-- the collation -/
  compareText : CompareOp → List Char → List Char → Bool
  /-- what ILIKE goes by -/
  lower : Char → Char
  /-- LIKE and ILIKE, of a pattern and a text -/
  like : Bool → List Char → List Char → Option Bool
  /-- `~` and `~*`, of a pattern and a text -/
  regex : Bool → List Char → List Char → Option Bool
  /-- an array literal of texts -/
  arrayOf : List Char → Option (List (Option String))
  /-- a text that is an index -/
  indexOf : String → Option Int
  /-- the columns beside the document, by their identifiers -/
  columnType : List Char → PgCast
  compareColumn : List Char → CompareOp → Literal → Verdict
  compareColumnCast : List Char → CompareOp → Literal → PgCast → Verdict
  lower_special : ∀ z ∈ ['\\', '%', '_'], ∀ c, lower c = z ↔ c = z
  like_eq : ∀ insensitive p t, dangling '\\' false p = false →
    like insensitive p t = some (likeMatch (sameKey (if insensitive then lower else id)) (some '\\') p t)
  like_dangling : ∀ insensitive p t, dangling '\\' false p = true → like insensitive p t ≠ some true
  numericOf_number : ∀ n, (numericOf (Json.numberText n).toList).isSome
  numericOf_word : numericOf ['a'] = none
  jsonbNumeric_number : ∀ n, (jsonbNumeric (.num n)).isSome
  jsonbNumeric_string : ∀ s, jsonbNumeric (.str s) = none
  booleanOf_true : booleanOf (lit "true") = some true
  jsonbBoolean_bool : ∀ b, jsonbBoolean (.bool b) = some b
  compareColumn_cast : ∀ identifier op v, CastAlike (columnType identifier) v →
    compareColumn identifier op v = compareColumnCast identifier op v (columnType identifier)

/-- What a source gives: the document, or a text that may be NULL. -/
inductive Read where
  | jsonb (document : Json)
  | text (t : Option (List Char))

/-- An item, from the end for a negative index. -/
def itemAt (items : List Json) (i : Int) : Option Json :=
  if 0 ≤ i then items[i.toNat]?
  else if 0 ≤ items.length + i then items[(items.length + i).toNat]?
  else none

/-- `->`, along a path. -/
def follow : List String → Json → Option Json
  | [], value => some value
  | key :: path, value => (value.get? key).bind (follow path)

namespace Postgres

variable (pg : Postgres)

/-- `#>`: keys of objects, and indices of arrays. -/
def walk : List (Option String) → Json → Option Json
  | [], value => some value
  | some key :: path, .obj entries => (Json.lookup key entries).bind (walk path)
  | some key :: path, .arr items => ((pg.indexOf key).bind (itemAt items)).bind (walk path)
  | _, _ => none

/-- `->>`, from the value to extract the field of. -/
def fieldText (last : String) (value : Option Json) : Option (List Char) :=
  match value.bind (Json.get? last) with
  | none | some .null => none
  | some (.str s) => some s.toList
  | some value => some (pg.textOf value)

/-- What a source gives of a document. -/
def read (document : Json) : Source → Option Read
  | .document => some (.jsonb document)
  | .arrows path last => some (.text (pg.fieldText last (follow path document)))
  | .hash path last => (pg.arrayOf (pathLiteral path)).map fun elements =>
    .text (pg.fieldText last (pg.walk elements document))
  | .column _ => none

/-- A test of a text; of NULL it is unknown. -/
def strict (t : Option (List Char)) (test : List Char → Option Bool) : Verdict :=
  match t with
  | none => some none
  | some t => (test t).map some

def jsonbVerdict (op : JsonOp) (document : Json) (v : Literal) : Verdict :=
  match op, v with
  | .overlaps, _ => none
  | _, .null => some none
  | .contains, .str s | .contains, .json s => (pg.jsonbOf s).map fun j => some (pg.containsJsonb document j)
  | .containedBy, .str s | .containedBy, .json s => (pg.jsonbOf s).map fun j => some (pg.containsJsonb j document)
  | _, _ => none

/-- An operator between a source and a literal. A text has no operator with another type. -/
def binaryVerdict (r : Read) (op : Operator) (v : Literal) : Verdict :=
  match r, op, v with
  | .text t, .compare op, .str s => strict t fun t => some (pg.compareText op t s)
  | .text t, .like insensitive negated, .str s => strict t fun t => (pg.like insensitive s t).map (xor negated)
  | .text t, .regex insensitive negated, .str s => strict t fun t => (pg.regex insensitive s t).map (xor negated)
  | .text _, .json _, _ => none
  | .text _, _, .null => some none
  | .jsonb document, .compare op, .str s => (pg.jsonbOf s).map fun j => some (pg.compareJsonb op document j)
  | .jsonb _, .compare _, .null => some none
  | .jsonb document, .json op, v => pg.jsonbVerdict op document v
  | _, _, _ => none

/-- The `numeric` a literal is by way of its text. -/
def literalNumeric : Literal → Option pg.Numeric
  | .str s => pg.numericOf s
  | .num n => pg.numericOf (Json.numberText n).toList
  | _ => none

def numericVerdict (r : Read) (op : CompareOp) (v : Literal) : Verdict :=
  if v = .null then some none
  else (pg.literalNumeric v).bind fun right =>
    match r with
    | .text t => strict t fun t => (pg.numericOf t).map fun left => pg.compareNumeric op left right
    | .jsonb document => (pg.jsonbNumeric document).map fun left => some (pg.compareNumeric op left right)

def booleanVerdict (r : Read) (op : CompareOp) (v : Literal) : Verdict :=
  match r, v with
  | .text t, .bool b => strict t fun t => (pg.booleanOf t).map fun a => pg.compareBoolean op a b
  | .jsonb document, .bool b => (pg.jsonbBoolean document).map fun a => some (pg.compareBoolean op a b)
  | _, _ => none

/-- What comparisons with the items of a list say together. -/
def anyEqual (results : List (Option Bool)) : Option Bool :=
  if some true ∈ results then some true else if none ∈ results then none else some false

def textItems : List Literal → Option (List (Option (List Char)))
  | [] => some []
  | .null :: vs => (textItems vs).map (none :: ·)
  | .str s :: vs => (textItems vs).map (some s :: ·)
  | _ :: _ => none

/-- A document against an item, which is cast. -/
def castEqual (document : Json) : Option (List Char) → Option (Option Bool)
  | none => some none
  | some s => (pg.jsonbOf s).map fun j => some (pg.compareJsonb .eq document j)

def inVerdict (r : Read) (negated : Bool) (vs : List Literal) : Verdict :=
  (textItems vs).bind fun items =>
    match r with
    | .text none => some none
    | .text (some t) => some ((anyEqual (items.map (Option.map (pg.compareText .eq t)))).map (xor negated))
    | .jsonb document => (items.mapM (pg.castEqual document)).map fun results => (anyEqual results).map (xor negated)

/-- What a predicate is worth on a document. -/
def verdict (document : Json) : Predicate → Verdict
  | .isNull negated s => (pg.read document s).map fun r =>
    match r with
    | .jsonb _ => some negated
    | .text t => some (xor negated t.isNone)
  | .binary s op v => (pg.read document s).bind fun r => pg.binaryVerdict r op v
  | .numeric s op v => (pg.read document s).bind fun r => pg.numericVerdict r op v
  | .boolean s op v => (pg.read document s).bind fun r => pg.booleanVerdict r op v
  | .wildcards s insensitive before after v => (pg.read document s).bind fun r =>
    match v with
    | .str content => pg.binaryVerdict r (.like insensitive false) (.str (wildText before after content))
    | v => pg.binaryVerdict r (.like insensitive false) v
  | .notLike s insensitive v => (pg.read document s).bind fun r =>
    (pg.binaryVerdict r (.like insensitive false) v).map fun b => b.map not
  | .inList s negated vs => (pg.read document s).bind fun r => pg.inVerdict r negated vs
  -- no parenthesis follows ANY or ALL
  | .anyArray _ _ _ => none
  -- the cast belongs to the key before it, which leaves no operator for a text
  | .jsonb s op v => (pg.read document s).bind fun r =>
    match r with
    | .jsonb document => pg.jsonbVerdict op document v
    | .text _ => none
  | .native identifier op v pgCast =>
    if pgCast = .none then pg.compareColumn identifier op v else pg.compareColumnCast identifier op v pgCast

end Postgres

/-! ### Formulas -/

/-- Two verdicts together; a condition that fails, fails the statement. -/
def both (f : Option Bool → Option Bool → Option Bool) (a b : Verdict) : Verdict :=
  a.bind fun a => b.map (f a)

mutual

/-- What a formula is worth, given its predicates. -/
def verdictOf {α : Type} (v : α → Verdict) : Formula α → Verdict
  | .leaf a => v a
  | .and fs => verdictOfAll v fs
  | .or fs => verdictOfAny v fs
  | .not f => (verdictOf v f).map fun b => b.map not

def verdictOfAll {α : Type} (v : α → Verdict) : List (Formula α) → Verdict
  | [] => some (some true)
  | f :: fs => both and3 (verdictOf v f) (verdictOfAll v fs)

def verdictOfAny {α : Type} (v : α → Verdict) : List (Formula α) → Verdict
  | [] => some (some false)
  | f :: fs => both or3 (verdictOf v f) (verdictOfAny v fs)

end

end FraiseQL.PostgresPredicate
