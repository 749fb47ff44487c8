import FraiseQL.FactTable
import FraiseQL.Projection
import FraiseQL.WhereGenerator

/-! Window queries: the request parser (`runtime/window_parser.rs`), the planner that resolves semantic names
against the fact table (`compiler/window_functions/codegen.rs`) and the SQL generator (`runtime/window.rs`). The
generators of the four databases are one: what differs is looked up from the database type. -/

namespace FraiseQL.Window

open SqlLex

/-! ### Requests -/

/-- `WindowSelectColumn`. -/
inductive SelectColumn where
  | measure (name aliasName : String)
  | dimension (path aliasName : String)
  | filter (name aliasName : String)

/-- `WindowFunctionSpec`. -/
inductive FunctionSpec where
  | rowNumber | rank | denseRank
  | ntile (n : Nat)
  | percentRank | cumeDist
  | lag (field : String) (offset : Int) (default : Option Json)
  | lead (field : String) (offset : Int) (default : Option Json)
  | firstValue (field : String)
  | lastValue (field : String)
  | nthValue (field : String) (n : Nat)
  | runningSum (measure : String)
  | runningAvg (measure : String)
  | runningCount
  | runningCountField (field : String)
  | runningMin (measure : String)
  | runningMax (measure : String)
  | runningStddev (measure : String)
  | runningVariance (measure : String)

inductive PartitionByColumn where
  | dimension (path : String)
  | filter (name : String)
  | measure (name : String)

/-- `WindowOrderBy`. -/
structure OrderBy where
  field : String
  direction : OrderDirection

inductive FrameType where
  | rows | range | groups
  deriving DecidableEq

inductive FrameBoundary where
  | unboundedPreceding
  | nPreceding (n : Nat)
  | currentRow
  | nFollowing (n : Nat)
  | unboundedFollowing

inductive FrameExclusion where
  | currentRow | group | ties | noOthers

/-- `WindowFrame`. -/
structure Frame where
  frameType : FrameType
  start : FrameBoundary
  stop : FrameBoundary
  exclusion : Option FrameExclusion

/-- `WindowFunctionRequest`. -/
structure FunctionRequest where
  function : FunctionSpec
  aliasName : String
  partitionBy : List PartitionByColumn
  orderBy : List OrderBy
  frame : Option Frame

/-- `WindowRequest`. -/
structure Request where
  tableName : String
  select : List SelectColumn
  windows : List FunctionRequest
  whereClause : Option WhereClause
  orderBy : List OrderBy
  limit : Option Nat
  offset : Option Nat

/-! ### The parser -/

namespace QueryParser

/-- `parse_single_select_column`. -/
def parseSelectColumn (col : Json) : Except FraiseQLError SelectColumn := do
  let colType ← requiredStr "type" "Missing 'type' in select column" col
  let aliasName ← requiredStr "alias" "Missing 'alias' in select column" col
  match colType with
  | "measure" => return .measure (← requiredStr "name" "Missing 'name' in measure select column" col) aliasName
  | "dimension" => return .dimension (← requiredStr "path" "Missing 'path' in dimension select column" col) aliasName
  | "filter" => return .filter (← requiredStr "name" "Missing 'name' in filter select column" col) aliasName
  | _ => .error (.validation ("Unknown select column type: " ++ colType) none)

def extractStringField (obj : Json) (fieldName : String) : Except FraiseQLError String :=
  requiredStr fieldName ("Missing '" ++ fieldName ++ "' in function spec") obj

/-- The offset of `lag` and `lead`; one that is no `i32` counts as 1. -/
def rowOffset (func : Json) : Int :=
  let offset := ((func.get? "offset").bind Json.asI64?).getD 1
  if -2 ^ 31 ≤ offset ∧ offset < 2 ^ 31 then offset else 1

def parseFunctionSpec (func : Json) : Except FraiseQLError FunctionSpec := do
  let funcType ← requiredStr "type" "Missing 'type' in function spec" func
  match funcType with
  | "row_number" => return .rowNumber
  | "rank" => return .rank
  | "dense_rank" => return .denseRank
  | "ntile" => return .ntile (← requiredU32 "n" "Missing 'n' in NTILE function" func)
  | "percent_rank" => return .percentRank
  | "cume_dist" => return .cumeDist
  | "lag" => return .lag (← extractStringField func "field") (rowOffset func) (func.get? "default")
  | "lead" => return .lead (← extractStringField func "field") (rowOffset func) (func.get? "default")
  | "first_value" => return .firstValue (← extractStringField func "field")
  | "last_value" => return .lastValue (← extractStringField func "field")
  | "nth_value" =>
    let field ← extractStringField func "field"
    return .nthValue field (← requiredU32 "n" "Missing 'n' in NTH_VALUE function" func)
  | "running_sum" => return .runningSum (← extractStringField func "measure")
  | "running_avg" => return .runningAvg (← extractStringField func "measure")
  | "running_count" =>
    match (func.get? "field").bind Json.asStr? with
    | some field => return .runningCountField field
    | none => return .runningCount
  | "running_min" => return .runningMin (← extractStringField func "measure")
  | "running_max" => return .runningMax (← extractStringField func "measure")
  | "running_stddev" => return .runningStddev (← extractStringField func "measure")
  | "running_variance" => return .runningVariance (← extractStringField func "measure")
  | _ => .error (.validation ("Unknown window function type: " ++ funcType) none)

/-- One item of `parse_partition_by`. -/
def parsePartitionColumn (item : Json) : Except FraiseQLError PartitionByColumn := do
  let colType ← requiredStr "type" "Missing 'type' in partitionBy column" item
  match colType with
  | "dimension" => return .dimension (← requiredStr "path" "Missing 'path' in dimension partition column" item)
  | "filter" => return .filter (← requiredStr "name" "Missing 'name' in filter partition column" item)
  | "measure" => return .measure (← requiredStr "name" "Missing 'name' in measure partition column" item)
  | _ => .error (.validation ("Unknown partition column type: " ++ colType) none)

/-- One item of `parse_order_by`; every direction but a written `DESC` is ascending. -/
def parseOrderByItem (item : Json) : Except FraiseQLError OrderBy := do
  let field ← requiredStr "field" "Missing 'field' in orderBy" item
  let direction := match (item.get? "direction").bind Json.asStr? with
    | some "DESC" | some "desc" => OrderDirection.desc
    | _ => OrderDirection.asc
  return ⟨field, direction⟩

def parseFrameBoundary (boundary : Json) : Except FraiseQLError FrameBoundary := do
  let boundaryType ← requiredStr "type" "Missing 'type' in frame boundary" boundary
  match boundaryType with
  | "unbounded_preceding" => return .unboundedPreceding
  | "n_preceding" => return .nPreceding (← requiredU32 "n" "Missing 'n' in N PRECEDING boundary" boundary)
  | "current_row" => return .currentRow
  | "n_following" => return .nFollowing (← requiredU32 "n" "Missing 'n' in N FOLLOWING boundary" boundary)
  | "unbounded_following" => return .unboundedFollowing
  | _ => .error (.validation ("Unknown frame boundary type: " ++ boundaryType) none)

def frameBoundary (key : String) (frame : Json) : Except FraiseQLError FrameBoundary :=
  match frame.get? key with
  | some boundary => parseFrameBoundary boundary
  | none => .error (.validation ("Missing '" ++ key ++ "' in frame") none)

def parseFrame (frame : Json) : Except FraiseQLError Frame := do
  let frameType ← match (frame.get? "frame_type").bind Json.asStr? with
    | some "ROWS" => .ok FrameType.rows
    | some "RANGE" => .ok FrameType.range
    | some "GROUPS" => .ok FrameType.groups
    | _ => .error (.validation "Invalid or missing 'frame_type' in frame" none)
  let start ← frameBoundary "start" frame
  let stop ← frameBoundary "end" frame
  let exclusion := ((frame.get? "exclusion").bind Json.asStr?).map fun
    | "current_row" => FrameExclusion.currentRow
    | "group" => FrameExclusion.group
    | "ties" => FrameExclusion.ties
    | _ => FrameExclusion.noOthers
  return ⟨frameType, start, stop, exclusion⟩

/-- `parse_single_window_function`. -/
def parseWindowFunction (window : Json) : Except FraiseQLError FunctionRequest := do
  let function ← match window.get? "function" with
    | some func => parseFunctionSpec func
    | none => .error (.validation "Missing 'function' in window definition" none)
  let aliasName ← requiredStr "alias" "Missing 'alias' in window definition" window
  let partitionBy ← parsePart "partitionBy" (parseItems parsePartitionColumn) [] window
  let orderBy ← parsePart "orderBy" (parseItems parseOrderByItem) [] window
  let frame ← parsePart "frame" (fun frame => (parseFrame frame).map some) none window
  return ⟨function, aliasName, partitionBy, orderBy, frame⟩

def parseWhereClause (value : Json) : WhereClause :=
  parseWhereObject (fun field operator value => .field [field] operator value) value

def parse (query : Json) : Except FraiseQLError Request := do
  let tableName ← requiredStr "table" "Missing 'table' field in window query" query
  let select ← parsePart "select" (parseItems parseSelectColumn) [] query
  let windows ← parsePart "windows" (parseItems parseWindowFunction) [] query
  let orderBy ← parsePart "orderBy" (parseItems parseOrderByItem) [] query
  return ⟨tableName, select, windows, (query.get? "where").map parseWhereClause, orderBy,
    optionalU32 "limit" query, optionalU32 "offset" query⟩

end QueryParser

/-! ### Plans -/

/-- The `SelectColumn` of a plan. -/
structure PlannedColumn where
  expression : List Char
  aliasName : String

/-- `WindowFunctionType`, with SQL expressions for fields. -/
inductive FunctionType where
  | rowNumber | rank | denseRank
  | ntile (n : Nat)
  | percentRank | cumeDist
  | lag (field : List Char) (offset : Int) (default : Option Json)
  | lead (field : List Char) (offset : Int) (default : Option Json)
  | firstValue (field : List Char)
  | lastValue (field : List Char)
  | nthValue (field : List Char) (n : Nat)
  | sum (field : List Char)
  | avg (field : List Char)
  | count (field : Option (List Char))
  | min (field : List Char)
  | max (field : List Char)
  | stddev (field : List Char)
  | variance (field : List Char)

/-- The `OrderByClause` of a plan; its field is an SQL expression. -/
structure PlannedOrder where
  field : List Char
  direction : OrderDirection

structure WindowFunction where
  function : FunctionType
  aliasName : String
  partitionBy : List (List Char)
  orderBy : List PlannedOrder
  frame : Option Frame

/-- `WindowExecutionPlan`. -/
structure ExecutionPlan where
  table : String
  select : List PlannedColumn
  windows : List WindowFunction
  whereClause : Option WhereClause
  orderBy : List PlannedOrder
  limit : Option Nat
  offset : Option Nat

/-! ### The planner -/

namespace Planner

variable (metadata : FactTableMetadata)

/-- A path in the dimension column; it goes into the literal as it is. -/
def dimensionPath (path : String) : List Char :=
  metadata.dimensions.name.toList ++ lit "->>'" ++ path.toList ++ ['\'']

def validateMeasure (measure : String) : Except FraiseQLError Unit :=
  if metadata.hasMeasure measure then .ok ()
  else .error (.validation ("Measure '" ++ measure ++ "' not found in fact table '" ++ metadata.tableName ++ "'") none)

def validateFilter (name : String) : Except FraiseQLError Unit :=
  if metadata.hasFilter name then .ok ()
  else .error (.validation
    ("Filter column '" ++ name ++ "' not found in fact table '" ++ metadata.tableName ++ "'") none)

/-- `convert_single_select_column`. -/
def convertSelectColumn : SelectColumn → Except FraiseQLError PlannedColumn
  | .measure name aliasName => do
    validateMeasure metadata name
    return ⟨name.toList, aliasName⟩
  | .dimension path aliasName => .ok ⟨dimensionPath metadata path, aliasName⟩
  | .filter name aliasName => do
    validateFilter metadata name
    return ⟨name.toList, aliasName⟩

/-- Whether a field is `[_A-Za-z][_0-9A-Za-z]*`. -/
def isFieldIdentifier (field : List Char) : Bool :=
  match field with
  | [] => false
  | c :: cs => (c.isAlpha || c == '_') && cs.all fun c => c.isAlphanum || c == '_'

def validateFieldIdentifier (field : String) : Except FraiseQLError Unit :=
  if isFieldIdentifier field.toList then .ok ()
  else .error (.validation ("window field '" ++ field ++
    "' contains invalid characters; only [_A-Za-z][_0-9A-Za-z]* is allowed") none)

def resolveFieldToSql (field : String) : Except FraiseQLError (List Char) := do
  if metadata.hasMeasure field || metadata.hasFilter field then return field.toList
  else
    validateFieldIdentifier field
    return dimensionPath metadata field

def overMeasure (function : List Char → FunctionType) (measure : String) : Except FraiseQLError FunctionType := do
  validateMeasure metadata measure
  return function measure.toList

def convertFunctionSpec : FunctionSpec → Except FraiseQLError FunctionType
  | .rowNumber => .ok .rowNumber
  | .rank => .ok .rank
  | .denseRank => .ok .denseRank
  | .ntile n => .ok (.ntile n)
  | .percentRank => .ok .percentRank
  | .cumeDist => .ok .cumeDist
  | .lag field offset default => do return .lag (← resolveFieldToSql metadata field) offset default
  | .lead field offset default => do return .lead (← resolveFieldToSql metadata field) offset default
  | .firstValue field => do return .firstValue (← resolveFieldToSql metadata field)
  | .lastValue field => do return .lastValue (← resolveFieldToSql metadata field)
  | .nthValue field n => do return .nthValue (← resolveFieldToSql metadata field) n
  | .runningSum measure => overMeasure metadata .sum measure
  | .runningAvg measure => overMeasure metadata .avg measure
  | .runningCount => .ok (.count none)
  | .runningCountField field => do return .count (some (← resolveFieldToSql metadata field))
  | .runningMin measure => overMeasure metadata .min measure
  | .runningMax measure => overMeasure metadata .max measure
  | .runningStddev measure => overMeasure metadata .stddev measure
  | .runningVariance measure => overMeasure metadata .variance measure

def convertPartitionBy : PartitionByColumn → Except FraiseQLError (List Char)
  | .dimension path => .ok (dimensionPath metadata path)
  | .filter name => do
    validateFilter metadata name
    return name.toList
  | .measure name => do
    validateMeasure metadata name
    return name.toList

/-- `convert_window_order_by`. -/
def convertOrderBy (order : OrderBy) : Except FraiseQLError PlannedOrder := do
  return ⟨← resolveFieldToSql metadata order.field, order.direction⟩

/-- `convert_single_window_function`. -/
def convertWindowFunction (request : FunctionRequest) : Except FraiseQLError WindowFunction := do
  let function ← convertFunctionSpec metadata request.function
  let partitionBy ← request.partitionBy.mapM (convertPartitionBy metadata)
  let orderBy ← request.orderBy.mapM (convertOrderBy metadata)
  return ⟨function, request.aliasName, partitionBy, orderBy, request.frame⟩

def plan (request : Request) : Except FraiseQLError ExecutionPlan := do
  let select ← request.select.mapM (convertSelectColumn metadata)
  let windows ← request.windows.mapM (convertWindowFunction metadata)
  let orderBy ← request.orderBy.mapM (convertOrderBy metadata)
  return ⟨request.tableName, select, windows, request.whereClause, orderBy, request.limit, request.offset⟩

end Planner

/-! ### The SQL generator -/

namespace SqlGenerator

variable (db : DatabaseType)

/-- A function call. -/
def callText (name : List Char) (arguments : List (List Char)) : List Char :=
  name ++ lit "(" ++ joinText (lit ", ") arguments ++ lit ")"

/-- The arguments of `LAG` and `LEAD`; the default is written as JSON. -/
def offsetArguments (field : List Char) (offset : Int) (default : Option Json) : List (List Char) :=
  [field, (toString offset).toList] ++ (default.map fun value => value.text.toList).toList

def generateFunctionCall : FunctionType → List Char
  | .rowNumber => lit "ROW_NUMBER()"
  | .rank => lit "RANK()"
  | .denseRank => lit "DENSE_RANK()"
  | .ntile n => callText (lit "NTILE") [natText n]
  | .percentRank => lit "PERCENT_RANK()"
  | .cumeDist => lit "CUME_DIST()"
  | .lag field offset default => callText (lit "LAG") (offsetArguments field offset default)
  | .lead field offset default => callText (lit "LEAD") (offsetArguments field offset default)
  | .firstValue field => callText (lit "FIRST_VALUE") [field]
  | .lastValue field => callText (lit "LAST_VALUE") [field]
  | .nthValue field n => callText (lit "NTH_VALUE") [field, natText n]
  | .sum field => callText (lit "SUM") [field]
  | .avg field => callText (lit "AVG") [field]
  | .count (some field) => callText (lit "COUNT") [field]
  | .count none => lit "COUNT(*)"
  | .min field => callText (lit "MIN") [field]
  | .max field => callText (lit "MAX") [field]
  | .stddev field => callText (if db = .sqlserver then lit "STDEV" else lit "STDDEV") [field]
  | .variance field => callText (if db = .sqlserver then lit "VAR" else lit "VARIANCE") [field]

def formatFrameBoundary : FrameBoundary → List Char
  | .unboundedPreceding => lit "UNBOUNDED PRECEDING"
  | .nPreceding n => natText n ++ lit " PRECEDING"
  | .currentRow => lit "CURRENT ROW"
  | .nFollowing n => natText n ++ lit " FOLLOWING"
  | .unboundedFollowing => lit "UNBOUNDED FOLLOWING"

def exclusionText : FrameExclusion → List Char
  | .currentRow => lit " EXCLUDE CURRENT ROW"
  | .group => lit " EXCLUDE GROUP"
  | .ties => lit " EXCLUDE TIES"
  | .noOthers => lit " EXCLUDE NO OTHERS"

def frameTypeText : FrameType → List Char
  | .rows => lit "ROWS"
  | .range => lit "RANGE"
  | .groups => lit "GROUPS"

def generateFrameClause (frame : Frame) : Except FraiseQLError (List Char) :=
  if frame.frameType = .groups ∧ db ≠ .postgresql then
    .error (.validation "GROUPS frame type only supported on PostgreSQL" none)
  else
    let sql := frameTypeText frame.frameType ++ lit " BETWEEN " ++ formatFrameBoundary frame.start ++ lit " AND " ++
      formatFrameBoundary frame.stop
    .ok (sql ++ match frame.exclusion with
      | some exclusion => if db = .postgresql then exclusionText exclusion else []
      | none => [])

def directionText : OrderDirection → List Char
  | .asc => lit " ASC"
  | .desc => lit " DESC"

def orderText (orders : List PlannedOrder) : List Char :=
  lit "ORDER BY " ++ joinText (lit ", ") (orders.map fun order => order.field ++ directionText order.direction)

/-- What stands between the parentheses of `OVER`: the parts that are there, with a blank between them. -/
def overText (window : WindowFunction) : Except FraiseQLError (List Char) := do
  let partitionBy := if window.partitionBy.isEmpty then []
    else [lit "PARTITION BY " ++ joinText (lit ", ") window.partitionBy]
  let orderBy := if window.orderBy.isEmpty then [] else [orderText window.orderBy]
  let frame ← match window.frame with
    | some frame => (generateFrameClause db frame).map fun sql => [sql]
    | none => .ok []
  return joinText (lit " ") (partitionBy ++ orderBy ++ frame)

def generateWindowFunction (window : WindowFunction) : Except FraiseQLError (List Char) := do
  let overSql ← overText db window
  return generateFunctionCall db window.function ++ lit " OVER (" ++ overSql ++ lit ") AS " ++ window.aliasName.toList

def columnText (column : PlannedColumn) : List Char :=
  column.expression ++ lit " AS " ++ column.aliasName.toList

structure WindowSql where
  rawSql : String
  parameters : List Json

/-- The WHERE clause, always in the PostgreSQL dialect. -/
def whereText (clause : Option WhereClause) : Except FraiseQLError (List Char × List Json) :=
  match clause with
  | none => .ok ([], [])
  | some clause => do
    let (sql, params) ← WhereGenerator.generate (WhereGenerator.new .postgres) clause
    return (lit " WHERE " ++ sql.toList, params)

def countText (keyword : List Char) (count : Option Nat) : List Char :=
  match count with
  | some n => keyword ++ natText n
  | none => []

/-- `generate_postgres`, which all four databases use. -/
def generate (plan : ExecutionPlan) : Except FraiseQLError WindowSql := do
  let windows ← plan.windows.mapM (generateWindowFunction db)
  let (whereSql, parameters) ← whereText plan.whereClause
  let orderBy := if plan.orderBy.isEmpty then [] else lit " " ++ orderText plan.orderBy
  return ⟨String.ofList (lit "SELECT " ++ joinText (lit ", ") (plan.select.map columnText ++ windows) ++
    lit " FROM " ++ plan.table.toList ++ whereSql ++ orderBy ++ countText (lit " LIMIT ") plan.limit ++
    countText (lit " OFFSET ") plan.offset), parameters⟩

end SqlGenerator

end FraiseQL.Window
