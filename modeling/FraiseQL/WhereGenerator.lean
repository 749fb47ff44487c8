import FraiseQL.Dialect
import FraiseQL.Outcome

/-! The parameterised WHERE generator (`where_generator/generic.rs`). A condition is a template together
with the field it is about and the values it binds, each under the number of its placeholder; the SQL of a
clause is a list of pieces, rendered to text at the end. `usize` counters are natural numbers. -/

namespace FraiseQL.WhereGenerator

open SqlLex Dialect

/-! ### Values -/

/-- `str::replace` of one character. -/
def replaceChar (c : Char) (by_ : String) (s : String) : String :=
  String.ofList (s.toList.flatMap fun x => if x = c then by_.toList else [x])

def escapeLikeLiteral (s : String) : String :=
  replaceChar '_' "\\_" (replaceChar '%' "\\%" (replaceChar '\\' "\\\\" s))

/-- The loop of `validate_regex_pattern`: whether a group with a quantifier is itself quantified. The stack
holds, for each open group, whether it has a quantifier. Only ASCII bytes are looked at, so the loop is over
characters. -/
def nestedQuantifier (previous : Option Char) (depth : Int) (stack : List Bool) : List Char → Bool
  | [] => false
  | b :: rest =>
    if previous = some '\\' then nestedQuantifier (some b) depth stack rest
    else match b with
      | '(' => nestedQuantifier (some b) (depth + 1) (false :: stack) rest
      | ')' =>
        (stack.headD false && match rest with
          | '+' :: _ | '*' :: _ | '?' :: _ | '{' :: _ => true
          | _ => false) ||
        nestedQuantifier (some b) (depth - 1) stack.tail rest
      | '+' | '*' | '?' => nestedQuantifier (some b) depth (stack.head?.toList.map (fun _ => true) ++ stack.tail) rest
      | '{' =>
        if 0 < depth then
          nestedQuantifier (some b) depth (stack.head?.toList.map (fun _ => true) ++ stack.tail) rest
        else nestedQuantifier (some b) depth stack rest
      | _ => nestedQuantifier (some b) depth stack rest

def maxRegexPatternLen : Nat := 1000

def validateRegexPattern (pattern : String) : Except FraiseQLError Unit :=
  if maxRegexPatternLen < pattern.utf8ByteSize then
    .error (.validation "Regex pattern exceeds maximum length of 1000 bytes" none)
  else if nestedQuantifier none 0 [] pattern.toList then
    .error (.validation ("Regex pattern contains nested quantifiers (potential ReDoS). Simplify the pattern " ++
      "to avoid `(…+)+`, `(…*)*`, or similar constructs.") none)
  else .ok ()

def requireStr (value : Json) (op : String) : Except FraiseQLError String :=
  match value.asStr? with
  | some s => .ok s
  | none => .error (.validation (op ++ " operator requires a string value") none)

/-- The array an operator requires. -/
def requireArray (value : Json) (message : String) : Except FraiseQLError (List Json) :=
  match value.asArray? with
  | some items => .ok items
  | none => .error (.validation message none)

/-! ### One condition -/

def lhs : Template := [.hole .field]

/-- The placeholder of a condition with one value. -/
def p : Template := [.hole (.param 0)]

def placeholders (n : Nat) : List Template := (List.range n).map fun i => [.hole (.param i)]

/-- The values a condition binds, in order, and its template. -/
abbrev Binding := List Json × Template

/-- `Eq` and `Neq`: both sides are cast according to the kind of the value. -/
def equality (op : Template) (value : Json) (d : Dialect) : Template :=
  match value with
  | .num _ => castToNumeric lhs d ++ op ++ castParamNumeric p d
  | .bool _ => castToBoolean lhs d ++ op ++ p
  | _ => lhs ++ op ++ p

/-- `Gt`, `Gte`, `Lt`, `Lte`. -/
def ordering (op : Template) (value : Json) (d : Dialect) : Binding :=
  ([value], castToNumeric lhs d ++ op ++ castParamNumeric p d)

/-- `LenEq` and its relatives. -/
def lengthOf (op : Template) (value : Json) (d : Dialect) : Binding :=
  ([value], jsonArrayLength lhs d ++ op ++ p)

/-- `Contains` and its relatives: the value is escaped and bound between `%` signs. -/
def patternMatch (name : String) (like : Template → Template → Dialect → Template) (parts : List Template)
    (value : Json) (d : Dialect) : Except FraiseQLError Binding := do
  let s ← requireStr value name
  return ([.str (escapeLikeLiteral s)], like lhs (concatSql parts d) d)

/-- `Regex` and its relatives. -/
def regexMatch (caseInsensitive negate : Bool) (value : Json) (d : Dialect) :
    Except FraiseQLError Binding := do
  match value.asStr? with
  | some s => validateRegexPattern s
  | none => .ok ()
  let sql ← regexSql lhs p caseInsensitive negate d
  return ([value], sql)

/-- The operators that bind their value and let the dialect render it. -/
def binary (sql : Dialect → Except FraiseQLError Template) (value : Json) (d : Dialect) :
    Except FraiseQLError Binding :=
  (sql d).map fun t => ([value], t)

/-- `In` and `Nin`. -/
def membership (negate : Bool) (value : Json) (d : Dialect) : Except FraiseQLError Binding := do
  let items ← requireArray value "IN operator requires an array value"
  if items.isEmpty then
    return ([], if negate then alwaysTrue d else alwaysFalse d)
  else
    let sql := lhs ++ txt " IN (" ++ joinWith (txt ", ") (placeholders items.length) ++ txt ")"
    return (items, if negate then txt "NOT (" ++ sql ++ txt ")" else sql)

/-- `MatchesAnyLquery` and `Lca`, which need at least one item. -/
def overItems (notArray empty : String) (cast : Template)
    (sql : List Template → Dialect → Except FraiseQLError Template) (value : Json) (d : Dialect) :
    Except FraiseQLError Binding := do
  let items ← requireArray value notArray
  if items.isEmpty then .error (.validation empty none)
  else
    let t ← sql ((placeholders items.length).map (· ++ cast)) d
    return (items, t)

def extendedName : ExtendedOperator → String
  | .emailDomainEq _ => "email_domain_eq"
  | .emailDomainIn _ => "email_domain_in"
  | .emailDomainEndswith _ => "email_domain_endswith"
  | .emailLocalPartStartswith _ => "email_local_part_startswith"
  | .vinWmiEq _ => "vin_wmi_eq"
  | .ibanCountryEq _ => "iban_country_eq"
  | .other display => display

def generateExtendedSql (op : ExtendedOperator) : Dialect → Except FraiseQLError Binding
  | .postgres =>
    match op with
    | .emailDomainEq domain => .ok ([.str domain], txt "SPLIT_PART(" ++ lhs ++ txt ", '@', 2) = " ++ p)
    | .emailDomainIn domains => .ok (domains.map .str,
        txt "SPLIT_PART(" ++ lhs ++ txt ", '@', 2) IN (" ++
          joinWith (txt ", ") (placeholders domains.length) ++ txt ")")
    | .emailDomainEndswith suffix => .ok ([.str (escapeLikeLiteral suffix)],
        txt "SPLIT_PART(" ++ lhs ++ txt ", '@', 2) LIKE '%' || " ++ p)
    | .emailLocalPartStartswith start => .ok ([.str (escapeLikeLiteral start)],
        txt "SPLIT_PART(" ++ lhs ++ txt ", '@', 1) LIKE " ++ p ++ txt " || '%'")
    | .vinWmiEq wmi => .ok ([.str wmi], txt "SUBSTRING(" ++ lhs ++ txt " FROM 1 FOR 3) = " ++ p)
    | .ibanCountryEq country => .ok ([.str country], txt "SUBSTRING(" ++ lhs ++ txt " FROM 1 FOR 2) = " ++ p)
    | .other display => .error (.validation
        ("Extended operator not yet implemented for PostgreSQL: " ++ display) none)
  | d => .error (.validation
      ("Extended operator " ++ extendedName op ++ " is not supported by the " ++ d.name ++ " dialect") none)

/-- The arms of `visit_field`. -/
def conditionOf (op : WhereOperator) (value : Json) (d : Dialect) : Except FraiseQLError Binding :=
  match op with
  | .eq => .ok ([value], equality (txt " = ") value d)
  | .neq => .ok ([value], equality (neqOperator d) value d)
  | .gt => .ok (ordering (txt " > ") value d)
  | .gte => .ok (ordering (txt " >= ") value d)
  | .lt => .ok (ordering (txt " < ") value d)
  | .lte => .ok (ordering (txt " <= ") value d)
  | .isIn => membership false value d
  | .nin => membership true value d
  | .isNull => .ok ([], if value.asBool?.getD true then lhs ++ txt " IS NULL" else lhs ++ txt " IS NOT NULL")
  | .contains => patternMatch "Contains" likeSql [txt "'%'", p, txt "'%'"] value d
  | .icontains => patternMatch "Icontains" ilikeSql [txt "'%'", p, txt "'%'"] value d
  | .startswith => patternMatch "Startswith" likeSql [p, txt "'%'"] value d
  | .istartswith => patternMatch "Istartswith" ilikeSql [p, txt "'%'"] value d
  | .endswith => patternMatch "Endswith" likeSql [txt "'%'", p] value d
  | .iendswith => patternMatch "Iendswith" ilikeSql [txt "'%'", p] value d
  | .like => .ok ([value], likeSql lhs p d)
  | .ilike => .ok ([value], ilikeSql lhs p d)
  | .nlike => .ok ([value], txt "NOT (" ++ likeSql lhs p d ++ txt ")")
  | .nilike => .ok ([value], txt "NOT (" ++ ilikeSql lhs p d ++ txt ")")
  | .regex => regexMatch false false value d
  | .iregex => regexMatch true false value d
  | .nregex => regexMatch false true value d
  | .niregex => regexMatch true true value d
  | .lenEq => .ok (lengthOf (txt " = ") value d)
  | .lenNeq => .ok (lengthOf (neqOperator d) value d)
  | .lenGt => .ok (lengthOf (txt " > ") value d)
  | .lenGte => .ok (lengthOf (txt " >= ") value d)
  | .lenLt => .ok (lengthOf (txt " < ") value d)
  | .lenLte => .ok (lengthOf (txt " <= ") value d)
  | .arrayContains => binary (arrayContainsSql lhs p) value d
  | .strictlyContains => binary (arrayContainsSql lhs p) value d
  | .arrayContainedBy => binary (arrayContainedBySql lhs p) value d
  | .arrayOverlaps => binary (arrayOverlapsSql lhs p) value d
  | .matches => binary (ftsMatchesSql lhs p) value d
  | .plainQuery => binary (ftsPlainQuerySql lhs p) value d
  | .phraseQuery => binary (ftsPhraseQuerySql lhs p) value d
  | .websearchQuery => binary (ftsWebsearchQuerySql lhs p) value d
  | .cosineDistance => binary (vectorDistanceSql (txt " <=> ") lhs p) value d
  | .l2Distance => binary (vectorDistanceSql (txt " <-> ") lhs p) value d
  | .l1Distance => binary (vectorDistanceSql (txt " <+> ") lhs p) value d
  | .hammingDistance => binary (vectorDistanceSql (txt " <~> ") lhs p) value d
  | .innerProduct => binary (vectorDistanceSql (txt " <#> ") lhs p) value d
  | .jaccardDistance => binary (jaccardDistanceSql lhs p) value d
  | .isIPv4 => (inetCheckSql lhs .isIPv4 d).map ([], ·)
  | .isIPv6 => (inetCheckSql lhs .isIPv6 d).map ([], ·)
  | .isPrivate => (inetCheckSql lhs .isPrivate d).map ([], ·)
  | .isPublic => (inetCheckSql lhs .isPublic d).map ([], ·)
  | .isLoopback => (inetCheckSql lhs .isLoopback d).map ([], ·)
  | .inSubnet => binary (inetBinarySql (txt " << ") lhs p) value d
  | .containsSubnet => binary (inetBinarySql (txt " >> ") lhs p) value d
  | .containsIP => binary (inetBinarySql (txt " >> ") lhs p) value d
  | .overlaps => binary (inetBinarySql (txt " && ") lhs p) value d
  | .ancestorOf => binary (ltreeBinarySql (txt " @> ") lhs p (txt "::ltree")) value d
  | .descendantOf => binary (ltreeBinarySql (txt " <@ ") lhs p (txt "::ltree")) value d
  | .matchesLquery => binary (ltreeBinarySql (txt " ~ ") lhs p (txt "::lquery")) value d
  | .matchesLtxtquery => binary (ltreeBinarySql (txt " @ ") lhs p (txt "::ltxtquery")) value d
  | .matchesAnyLquery => overItems "matches_any_lquery operator requires an array value"
      "matches_any_lquery requires at least one lquery" (txt "::lquery") (ltreeAnyLquerySql lhs) value d
  | .depthEq => binary (ltreeDepthSql (txt " = ") lhs p) value d
  | .depthNeq => binary (ltreeDepthSql (txt " != ") lhs p) value d
  | .depthGt => binary (ltreeDepthSql (txt " > ") lhs p) value d
  | .depthGte => binary (ltreeDepthSql (txt " >= ") lhs p) value d
  | .depthLt => binary (ltreeDepthSql (txt " < ") lhs p) value d
  | .depthLte => binary (ltreeDepthSql (txt " <= ") lhs p) value d
  | .lca => overItems "lca operator requires an array value" "lca operator requires at least one path"
      (txt "::ltree") (ltreeLcaSql lhs) value d
  | .extended op => generateExtendedSql op d

/-! ### Clauses -/

/-- What a condition is about. -/
inductive Subject where
  | field (path : List String)
  | column (name : String)

/-- A piece of SQL. A placeholder remembers the value it was rendered for. -/
inductive Piece where
  | text (cs : List Char)
  | subject (s : Subject)
  | param (n : Nat) (value : Json)

abbrev Sql := List Piece

/-- `GenericWhereGenerator`, without its counter. -/
structure Generator where
  dialect : Dialect
  indexedColumns : Option (List String)

def new (d : Dialect) : Generator := ⟨d, none⟩

/-- The counter and the bound values. -/
structure GenState where
  counter : Nat
  params : List Json

/-- A rendered condition: its subject, its values under the numbers of their placeholders, its template. -/
structure Condition where
  subject : Subject
  bound : List (Nat × Json)
  template : Template

def Condition.piece (c : Condition) : Frag → Piece
  | .text cs => .text cs
  | .hole .field => .subject c.subject
  | .hole (.param i) =>
    match c.bound[i]? with
    | some (n, v) => .param n v
    | none => .text []

/-- The template with its holes filled. -/
def Condition.sql (c : Condition) : Sql := c.template.map c.piece

/-- `push_param`: the value gets the next number of the counter. -/
def pushParam (s : GenState) (v : Json) : Nat × GenState :=
  (s.counter + 1, ⟨s.counter + 1, s.params ++ [v]⟩)

/-- How `generate_extended_sql` pushes: the value gets the new length of the vector as its number, and the
counter stays. -/
def pushExtended (s : GenState) (v : Json) : Nat × GenState :=
  (s.params.length + 1, ⟨s.counter, s.params ++ [v]⟩)

def pushAll (push : GenState → Json → Nat × GenState) :
    List Json → GenState → List (Nat × Json) × GenState
  | [], s => ([], s)
  | v :: vs, s =>
    let (n, s') := push s v
    let (rest, s'') := pushAll push vs s'
    ((n, v) :: rest, s'')

def isExtended : WhereOperator → Bool
  | .extended _ => true
  | _ => false

def visitField (g : Generator) (path : List String) (op : WhereOperator) (value : Json) (s : GenState) :
    Except FraiseQLError (Condition × GenState) := do
  let (values, template) ← conditionOf op value g.dialect
  let (bound, s') := pushAll (if isExtended op then pushExtended else pushParam) values s
  return (⟨.field path, bound, template⟩, s')

/-- The `Debug` text of an operator; of an extended operator only its first word. -/
def debugName : WhereOperator → String
  | .eq => "Eq" | .neq => "Neq" | .gt => "Gt" | .gte => "Gte" | .lt => "Lt" | .lte => "Lte"
  | .isIn => "In" | .nin => "Nin" | .contains => "Contains" | .icontains => "Icontains"
  | .startswith => "Startswith" | .istartswith => "Istartswith" | .endswith => "Endswith"
  | .iendswith => "Iendswith" | .like => "Like" | .ilike => "Ilike" | .nlike => "Nlike" | .nilike => "Nilike"
  | .regex => "Regex" | .iregex => "Iregex" | .nregex => "Nregex" | .niregex => "Niregex"
  | .isNull => "IsNull" | .arrayContains => "ArrayContains" | .arrayContainedBy => "ArrayContainedBy"
  | .arrayOverlaps => "ArrayOverlaps" | .lenEq => "LenEq" | .lenGt => "LenGt" | .lenLt => "LenLt"
  | .lenGte => "LenGte" | .lenLte => "LenLte" | .lenNeq => "LenNeq" | .cosineDistance => "CosineDistance"
  | .l2Distance => "L2Distance" | .l1Distance => "L1Distance" | .hammingDistance => "HammingDistance"
  | .innerProduct => "InnerProduct" | .jaccardDistance => "JaccardDistance" | .matches => "Matches"
  | .plainQuery => "PlainQuery" | .phraseQuery => "PhraseQuery" | .websearchQuery => "WebsearchQuery"
  | .isIPv4 => "IsIPv4" | .isIPv6 => "IsIPv6" | .isPrivate => "IsPrivate" | .isPublic => "IsPublic"
  | .isLoopback => "IsLoopback" | .inSubnet => "InSubnet" | .containsSubnet => "ContainsSubnet"
  | .containsIP => "ContainsIP" | .overlaps => "Overlaps" | .strictlyContains => "StrictlyContains"
  | .ancestorOf => "AncestorOf" | .descendantOf => "DescendantOf" | .matchesLquery => "MatchesLquery"
  | .matchesLtxtquery => "MatchesLtxtquery" | .matchesAnyLquery => "MatchesAnyLquery"
  | .depthEq => "DepthEq" | .depthNeq => "DepthNeq" | .depthGt => "DepthGt" | .depthGte => "DepthGte"
  | .depthLt => "DepthLt" | .depthLte => "DepthLte" | .lca => "Lca" | .extended _ => "Extended"

def visitNativeField (g : Generator) (column : String) (pgCast : PgCast) (op : WhereOperator) (value : Json)
    (s : GenState) : Except FraiseQLError (Condition × GenState) :=
  let (n, s') := pushParam s value
  let rhs := if pgCast = .none then p else castNativeParam p g.dialect pgCast
  match op with
  | .eq => .ok (⟨.column column, [(n, value)], lhs ++ txt " = " ++ rhs⟩, s')
  | .neq => .ok (⟨.column column, [(n, value)], lhs ++ neqOperator g.dialect ++ rhs⟩, s')
  | _ => .error (.validation
      ("Operator " ++ debugName op ++ " is not supported for native column conditions") none)

/-- `parts.join(sep)`. -/
def joinSql (sep : List Char) (parts : List Sql) : Sql := joined (.text sep) parts

/-- The text of a template without holes. -/
def constantSql (t : Template) : Sql := t.map fun
  | .text cs => .text cs
  | .hole _ => .text []

mutual

/-- `visit`, with `visit_and` and `visit_or`. -/
def visit (g : Generator) : WhereClause → GenState → Except FraiseQLError (Sql × GenState)
  | .and clauses, s =>
    if clauses.isEmpty then .ok (constantSql (alwaysTrue g.dialect), s)
    else do
      let (parts, s') ← visitAll g clauses s
      return (.text (lit "(") :: joinSql (lit " AND ") parts ++ [.text (lit ")")], s')
  | .or clauses, s =>
    if clauses.isEmpty then .ok (constantSql (alwaysFalse g.dialect), s)
    else do
      let (parts, s') ← visitAll g clauses s
      return (.text (lit "(") :: joinSql (lit " OR ") parts ++ [.text (lit ")")], s')
  | .not clause, s => do
    let (part, s') ← visit g clause s
    return (.text (lit "NOT (") :: part ++ [.text (lit ")")], s')
  | .field path op value, s => do
    let (c, s') ← visitField g path op value s
    return (c.sql, s')
  | .nativeField column pgCast op value, s => do
    let (c, s') ← visitNativeField g column pgCast op value s
    return (c.sql, s')

def visitAll (g : Generator) : List WhereClause → GenState → Except FraiseQLError (List Sql × GenState)
  | [], s => .ok ([], s)
  | clause :: clauses, s => do
    let (part, s') ← visit g clause s
    let (parts, s'') ← visitAll g clauses s'
    return (part :: parts, s'')

end

/-! ### Text -/

def resolveFieldExpr (g : Generator) (path : List String) : List Char :=
  match g.indexedColumns with
  | some indexed =>
    let colName := String.intercalate "__" path
    if colName ∈ indexed then quoteIdentifier g.dialect colName.toList
    else jsonExtractScalar path g.dialect
  | none => jsonExtractScalar path g.dialect

def Piece.render (g : Generator) : Piece → List Char
  | .text cs => cs
  | .subject (.field path) => resolveFieldExpr g path
  | .subject (.column name) => quoteIdentifier g.dialect name.toList
  | .param n _ => placeholder n g.dialect

def renderSql (g : Generator) (sql : Sql) : List Char := sql.flatMap (Piece.render g)

def generateWithParamOffset (g : Generator) (clause : WhereClause) (offset : Nat) :
    Except FraiseQLError (String × List Json) := do
  let (sql, s) ← visit g clause ⟨offset, []⟩
  return (String.ofList (renderSql g sql), s.params)

def generate (g : Generator) (clause : WhereClause) : Except FraiseQLError (String × List Json) :=
  generateWithParamOffset g clause 0

end FraiseQL.WhereGenerator
