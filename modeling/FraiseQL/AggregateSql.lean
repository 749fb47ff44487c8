import FraiseQL.AggregateQuery
import FraiseQL.DebugText

/-! The SQL of aggregate queries (`runtime/aggregation/`). Values of WHERE and HAVING are bound, `NULL` apart; the
table, the columns and the aliases are written as they are. A path has one segment. -/

namespace FraiseQL.Aggregate.SqlGenerator

open SqlLex

variable (db : DatabaseType) (text : TextLibrary)

/-! ### Names and values -/

def jsonbExtractSql (jsonbColumn path : String) : List Char :=
  match db with
  | .postgresql => jsonbColumn.toList ++ lit "->>" ++ quote .single path.toList ++ lit " "
  | .mysql => lit "JSON_UNQUOTE(JSON_EXTRACT(" ++ jsonbColumn.toList ++ lit ", " ++
      quote .single (lit "$." ++ path.toList) ++ lit "))"
  | .sqlite => lit "json_extract(" ++ jsonbColumn.toList ++ lit ", " ++ quote .single (lit "$." ++ path.toList) ++
      lit ")"
  | .sqlserver => lit "JSON_VALUE(" ++ jsonbColumn.toList ++ lit ", " ++ quote .single (lit "$." ++ path.toList) ++
      lit ")"

def identifierQuote : DatabaseType → Quote
  | .mysql => .backtick
  | .sqlserver => .bracket
  | .postgresql | .sqlite => .double

/-- `quote_identifier`: each part between dots by itself. -/
def quoteIdentifier (name : String) : List Char :=
  joinText (lit ".") ((name.toList.splitOn '.').map (quote (identifierQuote db)))

def escapeSqlString (s : String) : List Char :=
  s.toList.flatMap fun c =>
    if c = '\x00' then []
    else if c = '\\' ∧ db = .mysql then ['\\', '\\']
    else if c = '\'' then ['\'', '\'']
    else [c]

/-- `placeholder`, by the position of the value. -/
def placeholder (index : Nat) : List Char :=
  match db with
  | .postgresql => '$' :: natText (index + 1)
  | .sqlserver => '@' :: 'P' :: natText (index + 1)
  | .mysql | .sqlite => ['?']

def emitValueParam (value : Json) (params : List Json) : List Char × List Json :=
  match value with
  | .null => (lit "NULL", params)
  | value => (placeholder db params.length, params ++ [value])

def emitValueParams : List Json → List Json → List (List Char) × List Json
  | [], params => ([], params)
  | value :: values, params =>
    let (ph, params) := emitValueParam db value params
    let (phs, params) := emitValueParams values params
    (ph :: phs, params)

/-- The wildcards of a pattern, each behind a `!`. -/
def escapeLike (s : List Char) : List Char :=
  s.flatMap fun c => if c = '!' ∨ c = '%' ∨ c = '_' then ['!', c] else [c]

/-- The pattern of a LIKE operator, and whether it is escaped. -/
def likePattern (operator : WhereOperator) (value : List Char) : List Char × Bool :=
  match operator with
  | .contains | .icontains => ('%' :: escapeLike value ++ ['%'], true)
  | .startswith | .istartswith => (escapeLike value ++ ['%'], true)
  | .endswith | .iendswith => ('%' :: escapeLike value, true)
  | _ => (value, false)

def emitLikePatternParam (operator : WhereOperator) (value : String) (params : List Json) :
    List Char × Bool × List Json :=
  let (pattern, needsEscape) := likePattern operator (value.toList.filter (· ≠ '\x00'))
  let (ph, params) := emitValueParam db (.str (String.ofList pattern)) params
  (ph, needsEscape, params)

def operatorToSql (operator : WhereOperator) : List Char :=
  match operator with
  | .neq => lit "!="
  | .gt => lit ">"
  | .gte => lit ">="
  | .lt => lit "<"
  | .lte => lit "<="
  | .isIn => lit "IN"
  | .nin => lit "NOT IN"
  | .like | .contains | .startswith | .endswith => lit "LIKE"
  | .ilike | .icontains | .istartswith | .iendswith => if db = .postgresql then lit "ILIKE" else lit "LIKE"
  | _ => lit "="

def isCaseInsensitive : WhereOperator → Bool
  | .icontains | .istartswith | .iendswith | .ilike | .nilike | .iregex | .niregex => true
  | _ => false

/-! ### WHERE and HAVING -/

def comparison (column : List Char) (operator rhs : List Char) : List Char :=
  column ++ lit " " ++ operator ++ lit " " ++ rhs

def escapeClause (needsEscape : Bool) : List Char := if needsEscape then lit " ESCAPE '!'" else []

/-- The string an operator requires. -/
def requireText (value : Json) (message : String) : Except FraiseQLError String :=
  match value.asStr? with
  | some s => .ok s
  | none => .error (.validation message none)

/-- `generate_case_insensitive_where_parameterized`. -/
def caseInsensitiveWhere (column : List Char) (operator : WhereOperator) (value : String) (params : List Json) :
    List Char × List Json :=
  if db = .postgresql then
    let (ph, needsEscape, params) := emitLikePatternParam db operator value params
    (comparison column (operatorToSql db operator) (ph ++ escapeClause needsEscape), params)
  else
    let (ph, needsEscape, params) := emitLikePatternParam db operator (text.toUppercase value) params
    (comparison (lit "UPPER(" ++ column ++ lit ")") (lit "LIKE") (ph ++ escapeClause needsEscape), params)

/-- `IN` and `NOT IN`. -/
def membership (column : List Char) (operator : WhereOperator) (value : Json) (params : List Json) :
    Except FraiseQLError (List Char × List Json) :=
  match value.asArray? with
  | none => .error (.validation "IN/NOT IN operators require array values" none)
  | some items =>
    let (phs, params) := emitValueParams db items params
    .ok (comparison column (operatorToSql db operator) (lit "(" ++ joinText (lit ", ") phs ++ lit ")"), params)

def patternWhere (column : List Char) (operator : WhereOperator) (value : Json) (params : List Json) :
    Except FraiseQLError (List Char × List Json) := do
  let s ← requireText value "LIKE operators require string values"
  let (ph, needsEscape, params) := emitLikePatternParam db operator s params
  return (comparison column (operatorToSql db operator) (ph ++ escapeClause needsEscape), params)

/-- A pattern operator without regard to case. -/
def ipatternWhere (column : List Char) (operator : WhereOperator) (value : Json) (params : List Json) :
    Except FraiseQLError (List Char × List Json) := do
  let s ← requireText value "Case-insensitive operators require string values"
  return caseInsensitiveWhere db text column operator s params

/-- Every other operator. -/
def plainWhere (column : List Char) (operator : WhereOperator) (value : Json) (params : List Json) :
    List Char × List Json :=
  let (ph, params) := emitValueParam db value params
  (comparison column (operatorToSql db operator) ph, params)

/-- `generate_direct_column_where_parameterized`. -/
def directColumnWhere (field : List Char) (operator : WhereOperator) (value : Json) (params : List Json) :
    Except FraiseQLError (List Char × List Json) :=
  match operator with
  | .isNull => .ok (field ++ lit " IS NULL", params)
  | .isIn | .nin => membership db field operator value params
  | .contains | .startswith | .endswith | .like => patternWhere db field operator value params
  | operator =>
    if isCaseInsensitive operator then ipatternWhere db text field operator value params
    else .ok (plainWhere db field operator value params)

/-- `generate_jsonb_where_parameterized`; here `LIKE` binds its value as it is. -/
def jsonbWhere (jsonbColumn field : String) (operator : WhereOperator) (value : Json) (params : List Json) :
    Except FraiseQLError (List Char × List Json) :=
  let extract := jsonbExtractSql db jsonbColumn (text.snakeCase field)
  match operator with
  | .isNull => .ok (extract ++ lit " IS NULL", params)
  | .isIn | .nin => membership db extract operator value params
  | .contains | .startswith | .endswith => patternWhere db extract operator value params
  | operator =>
    if isCaseInsensitive operator then ipatternWhere db text extract operator value params
    else .ok (plainWhere db extract operator value params)

/-- `str::replace` with a nonempty pattern; `skip` counts what is left of the last match. -/
def replaceText (pattern by_ : List Char) : Nat → List Char → List Char
  | _, [] => []
  | skip + 1, _ :: cs => replaceText pattern by_ skip cs
  | 0, c :: cs =>
    if pattern.isPrefixOf (c :: cs) then by_ ++ replaceText pattern by_ (pattern.length - 1) cs
    else c :: replaceText pattern by_ 0 cs

/-- A native column: on PostgreSQL the cast is put behind the placeholder of a single value. -/
def nativeWhere (column : String) (pgCast : PgCast) (operator : WhereOperator) (value : Json) (params : List Json) :
    Except FraiseQLError (List Char × List Json) := do
  let (sql, params') ← directColumnWhere db text (quoteIdentifier db column) operator value params
  if db = .postgresql ∧ pgCast ≠ .none ∧ params'.length = params.length + 1 then
    let ph := placeholder db params.length
    return (replaceText ph (ph ++ lit "::" ++ (DebugText.pgCastText pgCast).toList) 0 sql, params')
  else return (sql, params')

variable (metadata : FactTableMetadata)

mutual

/-- `where_clause_to_sql_parameterized`. -/
def whereClauseToSql : WhereClause → List Json → Except FraiseQLError (List Char × List Json)
  | .field path operator value, params =>
    let field := path.headD ""
    if metadata.hasFilter field then directColumnWhere db text field.toList operator value params
    else jsonbWhere db text metadata.dimensions.name field operator value params
  | .and clauses, params => do
    let (parts, params) ← whereClausesToSql clauses params
    return (lit "(" ++ joinText (lit " AND ") parts ++ lit ")", params)
  | .or clauses, params => do
    let (parts, params) ← whereClausesToSql clauses params
    return (lit "(" ++ joinText (lit " OR ") parts ++ lit ")", params)
  | .not clause, params => do
    let (part, params) ← whereClauseToSql clause params
    return (lit "NOT (" ++ part ++ lit ")", params)
  | .nativeField column pgCast operator value, params => nativeWhere db text column pgCast operator value params

def whereClausesToSql : List WhereClause → List Json → Except FraiseQLError (List (List Char) × List Json)
  | [], params => .ok ([], params)
  | clause :: clauses, params => do
    let (part, params) ← whereClauseToSql clause params
    let (parts, params) ← whereClausesToSql clauses params
    return (part :: parts, params)

end

/-- `build_where_clause_parameterized`. -/
def buildWhereClause (clause : Option WhereClause) (params : List Json) :
    Except FraiseQLError (List Char × List Json) :=
  match clause with
  | none => .ok ([], params)
  | some clause =>
    if clause.isEmpty then .ok ([], params)
    else do
      let (condition, params) ← whereClauseToSql db text metadata clause params
      return (lit "WHERE " ++ condition, params)

/-! ### Expressions -/

/-- The format of a bucket for `DATE_FORMAT`. -/
def mysqlFormat : TemporalBucket → List Char
  | .second => lit "%Y-%m-%d %H:%i:%s"
  | .minute => lit "%Y-%m-%d %H:%i:00"
  | .hour => lit "%Y-%m-%d %H:00:00"
  | .day => lit "%Y-%m-%d"
  | .week => lit "%Y-%u"
  | .month => lit "%Y-%m"
  | .quarter => lit "%Y-Q%q"
  | .year => lit "%Y"

/-- The format of a bucket for `strftime`. -/
def sqliteFormat : TemporalBucket → List Char
  | .second => lit "%Y-%m-%d %H:%M:%S"
  | .minute => lit "%Y-%m-%d %H:%M:00"
  | .hour => lit "%Y-%m-%d %H:00:00"
  | .day => lit "%Y-%m-%d"
  | .week => lit "%Y-W%W"
  | .month => lit "%Y-%m"
  | .quarter => lit "%Y-Q"
  | .year => lit "%Y"

def temporalBucketSql (column : String) (bucket : TemporalBucket) : List Char :=
  match db with
  | .postgresql => lit "DATE_TRUNC('" ++ bucket.text.toList ++ lit "', " ++ column.toList ++ lit ")"
  | .mysql => lit "DATE_FORMAT(" ++ column.toList ++ lit ", '" ++ mysqlFormat bucket ++ lit "')"
  | .sqlite => lit "strftime('" ++ sqliteFormat bucket ++ lit "', " ++ column.toList ++ lit ")"
  | .sqlserver =>
    match bucket with
    | .day => lit "CAST(" ++ column.toList ++ lit " AS DATE)"
    | .month => lit "DATEADD(month, DATEDIFF(month, 0, " ++ column.toList ++ lit "), 0)"
    | .year => lit "DATEADD(year, DATEDIFF(year, 0, " ++ column.toList ++ lit "), 0)"
    | bucket => lit "DATEPART(" ++ bucket.text.toList ++ lit ", " ++ column.toList ++ lit ")"

def groupByExpressionToSql : GroupByExpression → List Char
  | .jsonbPath jsonbColumn path _ => jsonbExtractSql db jsonbColumn path
  | .temporalBucket column bucket _ => temporalBucketSql db column bucket
  | .calendarPath calendarColumn jsonKey _ => jsonbExtractSql db calendarColumn jsonKey
  | .nativeColumn column _ => quoteIdentifier db column

def directionText : OrderDirection → List Char
  | .asc => lit " ASC"
  | .desc => lit " DESC"

def orderByToSql (orderBy : List OrderByClause) : List Char :=
  joinText (lit ", ") (orderBy.map fun clause => quoteIdentifier db clause.field ++ directionText clause.direction)

/-- The order inside an aggregate, on the databases that have one. -/
def innerOrder (orderBy : Option (List OrderByClause)) : List Char :=
  match orderBy with
  | some orderBy => lit " ORDER BY " ++ orderByToSql db orderBy
  | none => []

def generateArrayAggSql (column : String) (orderBy : Option (List OrderByClause)) : List Char :=
  match db with
  | .postgresql => lit "ARRAY_AGG(" ++ column.toList ++ innerOrder .postgresql orderBy ++ lit ")"
  | .mysql => lit "JSON_ARRAYAGG(" ++ column.toList ++ lit ")"
  | .sqlite => lit "'[' || GROUP_CONCAT('\"' || " ++ column.toList ++ lit " || '\"', ',') || ']'"
  | .sqlserver => lit "'[' + STRING_AGG('\"' + CAST(" ++ column.toList ++ lit " AS NVARCHAR(MAX)) + '\"', ',') + ']'"

def generateJsonAggSql (column : String) (orderBy : Option (List OrderByClause)) : List Char :=
  match db with
  | .postgresql => lit "JSON_AGG(" ++ column.toList ++ innerOrder .postgresql orderBy ++ lit ")"
  | .mysql => lit "JSON_ARRAYAGG(" ++ column.toList ++ lit ")"
  | .sqlite => lit "JSON_ARRAY(" ++ column.toList ++ lit ")"
  | .sqlserver => lit "(SELECT " ++ column.toList ++ lit " FOR JSON PATH)"

def generateJsonbAggSql (column : String) (orderBy : Option (List OrderByClause)) : List Char :=
  match db with
  | .postgresql => lit "JSONB_AGG(" ++ column.toList ++ innerOrder .postgresql orderBy ++ lit ")"
  | db => generateJsonAggSql db column orderBy

def generateStringAggSql (column delimiter : String) (orderBy : Option (List OrderByClause)) : List Char :=
  let delimiter := escapeSqlString db delimiter
  match db with
  | .postgresql => lit "STRING_AGG(" ++ column.toList ++ lit ", '" ++ delimiter ++ lit "'" ++
      innerOrder .postgresql orderBy ++ lit ")"
  | .mysql => lit "GROUP_CONCAT(" ++ column.toList ++ innerOrder .mysql orderBy ++ lit " SEPARATOR '" ++ delimiter ++
      lit "')"
  | .sqlite => lit "GROUP_CONCAT(" ++ column.toList ++ lit ", '" ++ delimiter ++ lit "')"
  | .sqlserver => lit "STRING_AGG(CAST(" ++ column.toList ++ lit " AS NVARCHAR(MAX)), '" ++ delimiter ++ lit "')" ++
      match orderBy with
      | some orderBy => lit " WITHIN GROUP (ORDER BY " ++ orderByToSql .sqlserver orderBy ++ lit ")"
      | none => []

/-- `sql_name`. -/
def functionName : AggregateFunction → List Char
  | .sum => lit "SUM"
  | .avg => lit "AVG"
  | .min => lit "MIN"
  | .max => lit "MAX"
  | .stddev => lit "STDDEV"
  | .variance => lit "VARIANCE"
  | .arrayAgg => lit "ARRAY_AGG"
  | .jsonAgg => lit "JSON_AGG"
  | .jsonbAgg => lit "JSONB_AGG"
  | .stringAgg => lit "STRING_AGG"

def overColumn (function : List Char) (column : String) : List Char :=
  function ++ lit "(" ++ column.toList ++ lit ")"

def generateStddevSql (column : String) : List Char :=
  match db with
  | .postgresql | .mysql => overColumn (lit "STDDEV_SAMP") column
  | .sqlite => lit "NULL /* STDDEV not supported in SQLite */"
  | .sqlserver => overColumn (lit "STDEV") column

def generateVarianceSql (column : String) : List Char :=
  match db with
  | .postgresql | .mysql => overColumn (lit "VAR_SAMP") column
  | .sqlite => lit "NULL /* VARIANCE not supported in SQLite */"
  | .sqlserver => overColumn (lit "VAR") column

def generateBoolAggSql (column : String) (function : BoolAggregateFunction) : List Char :=
  match db, function with
  | .postgresql, .and => overColumn (lit "BOOL_AND") column
  | .postgresql, .or => overColumn (lit "BOOL_OR") column
  | .mysql, .and | .sqlite, .and => overColumn (lit "MIN") column ++ lit " = 1"
  | .mysql, .or | .sqlite, .or => overColumn (lit "MAX") column ++ lit " = 1"
  | .sqlserver, .and => lit "MIN(CAST(" ++ column.toList ++ lit " AS BIT)) = 1"
  | .sqlserver, .or => lit "MAX(CAST(" ++ column.toList ++ lit " AS BIT)) = 1"

def aggregateExpressionToSql : AggregateExpression → List Char
  | .count _ => lit "COUNT(*)"
  | .countDistinct column _ => lit "COUNT(DISTINCT " ++ column.toList ++ lit ")"
  | .measureAggregate column function _ =>
    match function with
    | .stddev => generateStddevSql db column
    | .variance => generateVarianceSql db column
    | function => overColumn (functionName function) column
  | .advancedAggregate column function _ delimiter orderBy =>
    match function with
    | .arrayAgg => generateArrayAggSql db column orderBy
    | .jsonAgg => generateJsonAggSql db column orderBy
    | .jsonbAgg => generateJsonbAggSql db column orderBy
    | .stringAgg => generateStringAggSql db column (delimiter.getD ",") orderBy
    | function => overColumn (functionName function) column
  | .boolAggregate column function _ => generateBoolAggSql db column function

/-! ### The statement -/

def groupByAlias : GroupByExpression → String
  | .jsonbPath _ _ aliasName => aliasName
  | .temporalBucket _ _ aliasName => aliasName
  | .calendarPath _ _ aliasName => aliasName
  | .nativeColumn _ aliasName => aliasName

def aggregateAlias : AggregateExpression → String
  | .count aliasName => aliasName
  | .countDistinct _ aliasName => aliasName
  | .measureAggregate _ _ aliasName => aliasName
  | .advancedAggregate _ _ aliasName _ _ => aliasName
  | .boolAggregate _ _ aliasName => aliasName

def column (sql : List Char) (aliasName : String) : List Char := sql ++ lit " AS " ++ aliasName.toList

def buildSelectClause (groupBy : List GroupByExpression) (aggregates : List AggregateExpression) : List Char :=
  lit "SELECT\n  " ++ joinText (lit ",\n  ")
    ((groupBy.map fun e => column (groupByExpressionToSql db e) (groupByAlias e)) ++
      aggregates.map fun e => column (aggregateExpressionToSql db e) (aggregateAlias e))

/-- `build_group_by_clause`, when there is something to group by. -/
def buildGroupByClause (groupBy : List GroupByExpression) : List Char :=
  if groupBy.isEmpty then []
  else lit "GROUP BY " ++ joinText (lit ", ") (groupBy.map (groupByExpressionToSql db))

/-- `sql_operator`. -/
def havingOperatorSql : HavingOperator → List Char
  | .eq => lit "="
  | .neq => lit "!="
  | .gt => lit ">"
  | .gte => lit ">="
  | .lt => lit "<"
  | .lte => lit "<="

def havingConditions : List ValidatedHavingCondition → List Json → List (List Char) × List Json
  | [], params => ([], params)
  | condition :: conditions, params =>
    let (ph, params) := emitValueParam db condition.value params
    let (rest, params) := havingConditions conditions params
    (comparison (aggregateExpressionToSql db condition.aggregate) (havingOperatorSql condition.operator) ph :: rest,
      params)

/-- `build_having_clause_parameterized`. -/
def buildHavingClause (conditions : List ValidatedHavingCondition) (params : List Json) : List Char × List Json :=
  if conditions.isEmpty then ([], params)
  else
    let (parts, params) := havingConditions db conditions params
    (lit "HAVING " ++ joinText (lit " AND ") parts, params)

/-- `build_order_by_clause`, when there is an order. -/
def buildOrderByClause (orderBy : List OrderByClause) : List Char :=
  if orderBy.isEmpty then [] else lit "ORDER BY " ++ orderByToSql db orderBy

/-- `ParameterizedAggregationSql`. -/
structure ParameterizedSql where
  sql : String
  params : List Json

def countText (keyword : List Char) (count : Option Nat) : List Char :=
  match count with
  | some n => keyword ++ natText n
  | none => []

def generateParameterized (plan : Plan) : Except FraiseQLError ParameterizedSql := do
  let selectSql := buildSelectClause db plan.groupByExpressions plan.aggregateExpressions
  let fromSql := lit "FROM " ++ plan.request.tableName.toList
  let (whereSql, params) ← buildWhereClause db text plan.metadata plan.request.whereClause []
  let groupSql := buildGroupByClause db plan.groupByExpressions
  let (havingSql, params) := buildHavingClause db plan.havingConditions params
  let orderSql := buildOrderByClause db plan.request.orderBy
  let parts := [selectSql, fromSql, whereSql, groupSql, havingSql, orderSql].filter fun part => !part.isEmpty
  return ⟨String.ofList (joinText (lit "\n") parts ++ countText (lit "\nLIMIT ") plan.request.limit ++
    countText (lit "\nOFFSET ") plan.request.offset), params⟩

end FraiseQL.Aggregate.SqlGenerator
