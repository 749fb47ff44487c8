import FraiseQL.FactTable
import FraiseQL.GraphqlQuery

/-! Aggregate queries: the request parser (`runtime/aggregate_parser.rs`) and the planner that validates a request
against the fact table (`compiler/aggregation.rs`). The names of a request are the keys of its JSON objects. The
cast of a grouped native column is carried along by the code and read by nothing; it is left out. -/

namespace FraiseQL.Aggregate

/-- The Unicode tables of `char` and `str`, and `{:?}` of a list of strings. -/
structure TextLibrary where
  isUppercase : Char → Bool
  isLowercase : Char → Bool
  toLowercase : String → String
  toUppercase : String → String
  debugNames : List String → String

/-- `to_snake_case` of `utils/casing.rs`. -/
def TextLibrary.snakeCase (text : TextLibrary) (s : String) : String :=
  if s.toList.any text.isUppercase then
    String.ofList (Graphql.snakeChars text.isUppercase text.isLowercase true false false s.toList)
  else s

/-! ### Requests -/

/-- The aggregate functions over one column. -/
inductive AggregateFunction where
  | sum | avg | min | max | stddev | variance | arrayAgg | jsonAgg | jsonbAgg | stringAgg
  deriving DecidableEq

inductive BoolAggregateFunction where
  | and | or

inductive HavingOperator where
  | eq | neq | gt | gte | lt | lte

inductive GroupBySelection where
  | dimension (path aliasName : String)
  | temporalBucket (column : String) (bucket : TemporalBucket) (aliasName : String)
  | calendarDimension (calendarColumn jsonKey aliasName : String)
  | nativeDimension (column : String)

inductive AggregateSelection where
  | count (aliasName : String)
  | countDistinct (field aliasName : String)
  | measureAggregate (measure : String) (function : AggregateFunction) (aliasName : String)
  | boolAggregate (field : String) (function : BoolAggregateFunction) (aliasName : String)

def AggregateSelection.aliasName : AggregateSelection → String
  | .count aliasName => aliasName
  | .countDistinct _ aliasName => aliasName
  | .measureAggregate _ _ aliasName => aliasName
  | .boolAggregate _ _ aliasName => aliasName

structure HavingCondition where
  aggregate : AggregateSelection
  operator : HavingOperator
  value : Json

/-- `AggregationRequest`. -/
structure Request where
  tableName : String
  whereClause : Option WhereClause
  groupBy : List GroupBySelection
  aggregates : List AggregateSelection
  having : List HavingCondition
  orderBy : List OrderByClause
  limit : Option Nat
  offset : Option Nat

/-! ### The parser -/

namespace QueryParser

variable (text : TextLibrary) (metadata : FactTableMetadata)

/-- `parse_where_clause`: a native column is compared directly. -/
def parseWhereClause (nativeColumns : List (String × PgCast)) (value : Json) : WhereClause :=
  parseWhereObject (fun field operator value =>
    match nativeColumns.lookup field with
    | some pgCast => .nativeField field pgCast operator value
    | none => .field [field] operator value) value

/-- The suffixes of temporal buckets, in the order they are tried. -/
def bucketSuffixes : List (String × TemporalBucket) :=
  [("_second", .second), ("_minute", .minute), ("_hour", .hour), ("_day", .day), ("_week", .week),
    ("_month", .month), ("_quarter", .quarter), ("_year", .year)]

def findCalendarBucket (calendar : CalendarDimension) (bucket : TemporalBucket) :
    Option (CalendarGranularity × CalendarBucket) :=
  calendar.granularities.findSome? fun granularity =>
    (granularity.buckets.find? fun b => b.bucketType = bucket).map fun b => (granularity, b)

def calendarSelection (calendar : CalendarDimension) (bucket : TemporalBucket) (aliasName : String) :
    Option GroupBySelection :=
  (findCalendarBucket calendar bucket).map fun (granularity, b) =>
    .calendarDimension granularity.columnName b.jsonKey aliasName

def tryParseCalendarBucket (key : String) : Option GroupBySelection :=
  metadata.calendarDimensions.findSome? fun calendar =>
    bucketSuffixes.findSome? fun (suffix, bucket) =>
      if key = calendar.sourceColumn ++ suffix then calendarSelection calendar bucket key else none

def tryFindCalendarBucket (column : String) (bucket : TemporalBucket) : Option GroupBySelection :=
  metadata.calendarDimensions.findSome? fun calendar =>
    if calendar.sourceColumn = column then calendarSelection calendar bucket column else none

def parseTemporalBucket (key : String) : Option GroupBySelection :=
  metadata.denormalizedFilters.findSome? fun filter =>
    bucketSuffixes.findSome? fun (suffix, bucket) =>
      if key = filter.name ++ suffix then some (.temporalBucket filter.name bucket key) else none

/-- `TemporalBucket::from_str`. -/
def bucketFromStr (s : String) : Except FraiseQLError TemporalBucket :=
  match text.toLowercase s with
  | "second" => .ok .second
  | "minute" => .ok .minute
  | "hour" => .ok .hour
  | "day" => .ok .day
  | "week" => .ok .week
  | "month" => .ok .month
  | "quarter" => .ok .quarter
  | "year" => .ok .year
  | _ => .error (.parse ("Invalid temporal bucket: " ++ s) "unknown")

/-- One entry of `parse_group_by`: a key that is `true`, or a column with the name of a bucket. Any other value
is skipped. -/
def parseGroupByEntry (nativeColumns : List (String × PgCast)) (entry : String × Json) :
    Except FraiseQLError (Option GroupBySelection) :=
  match entry.2 with
  | .bool true =>
    match tryParseCalendarBucket metadata entry.1 with
    | some selection => .ok (some selection)
    | none =>
      match parseTemporalBucket metadata entry.1 with
      | some selection => .ok (some selection)
      | none =>
        if (nativeColumns.lookup entry.1).isSome then .ok (some (.nativeDimension entry.1))
        else .ok (some (.dimension entry.1 entry.1))
  | .str bucketName => do
    let bucket ← bucketFromStr text bucketName
    match tryFindCalendarBucket metadata entry.1 bucket with
    | some selection => return some selection
    | none =>
      if metadata.hasFilter entry.1 then return some (.temporalBucket entry.1 bucket entry.1)
      else .error (.validation
        ("Temporal bucketing column '" ++ entry.1 ++ "' not found in denormalized filters") none)
  | _ => .ok none

def parseGroupBy (nativeColumns : List (String × PgCast)) (value : Json) :
    Except FraiseQLError (List GroupBySelection) :=
  match value.asObject? with
  | none => .ok []
  | some entries => (entries.mapM (parseGroupByEntry text metadata nativeColumns)).map List.reduceOption

def extractDimensionPaths : List String :=
  metadata.dimensions.paths ++ metadata.denormalizedFilters.map FilterColumn.name

def boolSuffixes : List (String × BoolAggregateFunction) := [("_bool_and", .and), ("_bool_or", .or)]

/-- The suffixes that only columns of measures take. -/
def measureSuffixes : List (String × AggregateFunction) :=
  [("_sum", .sum), ("_avg", .avg), ("_min", .min), ("_max", .max), ("_stddev", .stddev), ("_variance", .variance)]

/-- The suffixes that measures and dimensions take. -/
def advancedSuffixes : List (String × AggregateFunction) :=
  [("_array_agg", .arrayAgg), ("_json_agg", .jsonAgg), ("_jsonb_agg", .jsonbAgg), ("_string_agg", .stringAgg)]

/-- The first name that becomes the aggregate with one of the suffixes. -/
def withSuffix {α : Type} (names : List String) (suffixes : List (String × α)) (aggName : String) :
    Option (String × α) :=
  names.findSome? fun name =>
    suffixes.findSome? fun (suffix, function) => if aggName = name ++ suffix then some (name, function) else none

/-- `str::strip_suffix`. -/
def stripEnd (suffix s : String) : Option String := (stripSuffix suffix.toList s.toList).map String.ofList

def parseAggregateSelection (aggName : String) : Except FraiseQLError AggregateSelection :=
  if aggName = "count" then .ok (.count "count")
  else if aggName = "count_distinct" then
    .ok (.countDistinct ((extractDimensionPaths metadata).head?.getD "id") "count_distinct")
  else match stripEnd "_count_distinct" aggName with
    | some stripped =>
      if (extractDimensionPaths metadata).contains stripped || metadata.hasMeasure stripped then
        .ok (.countDistinct stripped aggName)
      else .error (.validation ("COUNT DISTINCT field '" ++ stripped ++
        "' not found in dimensions or measures. Available: " ++
        text.debugNames (extractDimensionPaths metadata)) none)
    | none =>
      match withSuffix (extractDimensionPaths metadata) boolSuffixes aggName with
      | some (field, function) => .ok (.boolAggregate field function aggName)
      | none =>
        match withSuffix metadata.measures (measureSuffixes ++ advancedSuffixes) aggName with
        | some (measure, function) => .ok (.measureAggregate measure function aggName)
        | none =>
          match withSuffix (extractDimensionPaths metadata) advancedSuffixes aggName with
          | some (path, function) => .ok (.measureAggregate path function aggName)
          | none => .error (.validation ("Unknown aggregate selection: " ++ aggName) none)

/-- `parse_aggregates`: the keys of all objects in the array. -/
def parseAggregates (value : Json) : Except FraiseQLError (List AggregateSelection) :=
  match value.asArray? with
  | none => .ok []
  | some items => (items.flatMap fun item => (item.asObject?.getD []).map Prod.fst).mapM
      (parseAggregateSelection text metadata)

/-- The suffixes of HAVING conditions, in the order they are tried. -/
def havingSuffixes : List (String × HavingOperator) :=
  [("_gt", .gt), ("_gte", .gte), ("_lt", .lt), ("_lte", .lte), ("_eq", .eq), ("_neq", .neq)]

def parseHavingKey (key : String) : Option (String × HavingOperator) :=
  havingSuffixes.findSome? fun (suffix, operator) => (stripEnd suffix key).map fun aggName => (aggName, operator)

/-- One entry of `parse_having`; a key without an operator is skipped. -/
def parseHavingEntry (aggregates : List AggregateSelection) (entry : String × Json) :
    Except FraiseQLError (Option HavingCondition) :=
  match parseHavingKey entry.1 with
  | none => .ok none
  | some (aggName, operator) =>
    match aggregates.find? fun a => a.aliasName = aggName with
    | some aggregate => .ok (some ⟨aggregate, operator, entry.2⟩)
    | none => .error (.validation ("HAVING condition references non-selected aggregate: " ++ aggName) none)

def parseHaving (aggregates : List AggregateSelection) (value : Json) :
    Except FraiseQLError (List HavingCondition) :=
  match value.asObject? with
  | none => .ok []
  | some entries => (entries.mapM (parseHavingEntry aggregates)).map List.reduceOption

def parseOrderBy (value : Json) : List OrderByClause :=
  match value.asObject? with
  | none => []
  | some entries => entries.map fun (field, direction) =>
    .new field (match direction.asStr? with
      | some "DESC" | some "desc" => .desc
      | _ => .asc)

def parse (nativeColumns : List (String × PgCast)) (query : Json) : Except FraiseQLError Request := do
  let tableName ← requiredStr "table" "Missing 'table' field in aggregate query" query
  let groupBy ← parsePart "groupBy" (parseGroupBy text metadata nativeColumns) [] query
  let aggregates ← parsePart "aggregates" (parseAggregates text metadata) [] query
  let having ← parsePart "having" (parseHaving aggregates) [] query
  return ⟨tableName, (query.get? "where").map (parseWhereClause nativeColumns), groupBy, aggregates, having,
    ((query.get? "orderBy").map parseOrderBy).getD [], optionalU32 "limit" query, optionalU32 "offset" query⟩

end QueryParser

/-! ### Plans -/

inductive GroupByExpression where
  | jsonbPath (jsonbColumn path aliasName : String)
  | temporalBucket (column : String) (bucket : TemporalBucket) (aliasName : String)
  | calendarPath (calendarColumn jsonKey aliasName : String)
  | nativeColumn (column aliasName : String)

inductive AggregateExpression where
  | count (aliasName : String)
  | countDistinct (column aliasName : String)
  | measureAggregate (column : String) (function : AggregateFunction) (aliasName : String)
  | advancedAggregate (column : String) (function : AggregateFunction) (aliasName : String)
      (delimiter : Option String) (orderBy : Option (List OrderByClause))
  | boolAggregate (column : String) (function : BoolAggregateFunction) (aliasName : String)

structure ValidatedHavingCondition where
  aggregate : AggregateExpression
  operator : HavingOperator
  value : Json

/-- `AggregationPlan`. -/
structure Plan where
  metadata : FactTableMetadata
  request : Request
  groupByExpressions : List GroupByExpression
  aggregateExpressions : List AggregateExpression
  havingConditions : List ValidatedHavingCondition

namespace Planner

variable (metadata : FactTableMetadata)

def notInFactTable (what name : String) : FraiseQLError :=
  .validation (what ++ " '" ++ name ++ "' not found in fact table '" ++ metadata.tableName ++ "'") none

/-- One selection of `validate_group_by`; without declared paths every path is accepted. -/
def validateGroupBy : GroupBySelection → Except FraiseQLError GroupByExpression
  | .dimension path aliasName =>
    if !metadata.dimensions.paths.isEmpty && !metadata.hasPath path then
      .error (notInFactTable metadata "Dimension" path)
    else .ok (.jsonbPath metadata.dimensions.name path aliasName)
  | .temporalBucket column bucket aliasName =>
    if metadata.hasFilter column then .ok (.temporalBucket column bucket aliasName)
    else .error (notInFactTable metadata "Column" column)
  | .calendarDimension calendarColumn jsonKey aliasName => .ok (.calendarPath calendarColumn jsonKey aliasName)
  | .nativeDimension column => .ok (.nativeColumn column column)

def isAdvanced : AggregateFunction → Bool
  | .arrayAgg | .jsonAgg | .jsonbAgg | .stringAgg => true
  | _ => false

/-- The expression of a selection, as SELECT and HAVING build it. -/
def expressionOf : AggregateSelection → AggregateExpression
  | .count aliasName => .count aliasName
  | .countDistinct field aliasName => .countDistinct field aliasName
  | .measureAggregate measure function aliasName =>
    if isAdvanced function then
      .advancedAggregate measure function aliasName (if function = .stringAgg then some ", " else none) none
    else .measureAggregate measure function aliasName
  | .boolAggregate field function aliasName => .boolAggregate field function aliasName

/-- One selection of `validate_aggregates`. -/
def validateAggregate (selection : AggregateSelection) : Except FraiseQLError AggregateExpression :=
  match selection with
  | .count _ => .ok (expressionOf selection)
  | .countDistinct field _ =>
    if metadata.hasMeasure field then .ok (expressionOf selection)
    else .error (notInFactTable metadata "Measure" field)
  | .measureAggregate measure _ _ =>
    if metadata.hasMeasure measure || metadata.hasPath measure || metadata.hasFilter measure then
      .ok (expressionOf selection)
    else .error (notInFactTable metadata "Measure or field" measure)
  | .boolAggregate field _ _ =>
    if metadata.hasPath field || metadata.hasFilter field then .ok (expressionOf selection)
    else .error (notInFactTable metadata "Boolean field" field)

/-- One condition of `validate_having`; it never fails. -/
def validateHaving (condition : HavingCondition) : ValidatedHavingCondition :=
  ⟨expressionOf condition.aggregate, condition.operator, condition.value⟩

def plan (request : Request) : Except FraiseQLError Plan := do
  let groupByExpressions ← request.groupBy.mapM (validateGroupBy metadata)
  let aggregateExpressions ← request.aggregates.mapM (validateAggregate metadata)
  return ⟨metadata, request, groupByExpressions, aggregateExpressions, request.having.map validateHaving⟩

end Planner

end FraiseQL.Aggregate
