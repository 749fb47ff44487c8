import FraiseQL.QueryConditions

/-! Fact tables (`compiler/fact_table/mod.rs`, `runtime/native_columns.rs`) and what the two parsers of analytic
requests share. Of a measure and of a dimension path the runtime reads the name; whether a column is indexed or
nullable, and the data types of calendar buckets, it never reads. -/

namespace FraiseQL

inductive SqlType where
  | int | bigInt | decimal | float | jsonb | json | text | uuid | timestamp | date | boolean
  | other (name : String)

inductive TemporalBucket where
  | second | minute | hour | day | week | month | quarter | year
  deriving DecidableEq

/-- `postgres_arg`, which is the text of `field_suffix` too. -/
def TemporalBucket.text : TemporalBucket → String
  | .second => "second"
  | .minute => "minute"
  | .hour => "hour"
  | .day => "day"
  | .week => "week"
  | .month => "month"
  | .quarter => "quarter"
  | .year => "year"

structure DimensionColumn where
  name : String
  paths : List String

structure FilterColumn where
  name : String
  sqlType : SqlType

structure CalendarBucket where
  jsonKey : String
  bucketType : TemporalBucket

structure CalendarGranularity where
  columnName : String
  buckets : List CalendarBucket

structure CalendarDimension where
  sourceColumn : String
  granularities : List CalendarGranularity

structure FactTableMetadata where
  tableName : String
  measures : List String
  dimensions : DimensionColumn
  denormalizedFilters : List FilterColumn
  calendarDimensions : List CalendarDimension

namespace FactTableMetadata

variable (metadata : FactTableMetadata)

def hasMeasure (name : String) : Bool := metadata.measures.contains name

def hasFilter (name : String) : Bool := metadata.denormalizedFilters.any fun f => f.name = name

def hasPath (name : String) : Bool := metadata.dimensions.paths.contains name

end FactTableMetadata

def sqlTypeToPgCast : SqlType → PgCast
  | .uuid => .uuid
  | .int => .int4
  | .bigInt => .int8
  | .decimal => .numeric
  | .float => .float8
  | .boolean => .bool
  | .timestamp => .timestamptz
  | .date => .date
  | .text | .jsonb | .json | .other _ => .none

/-- `filter_columns_to_native_map`; of two columns with one name the later stands. -/
def filterColumnsToNativeMap (filters : List FilterColumn) : List (String × PgCast) :=
  (filters.map fun f => (f.name, sqlTypeToPgCast f.sqlType)).reverse

/-! ### Reading requests -/

def requiredStr (key message : String) (obj : Json) : Except FraiseQLError String :=
  match (obj.get? key).bind Json.asStr? with
  | some s => .ok s
  | none => .error (.validation message none)

/-- A number under a key; a larger number than a `u32` is the largest one. -/
def optionalU32 (key : String) (obj : Json) : Option Nat :=
  ((obj.get? key).bind Json.asU64?).map fun n => min n (2 ^ 32 - 1)

def requiredU32 (key message : String) (obj : Json) : Except FraiseQLError Nat :=
  match optionalU32 key obj with
  | some n => .ok n
  | none => .error (.validation message none)

/-- A part of a request that may be missing. -/
def parsePart {α : Type} (key : String) (parse : Json → Except FraiseQLError α) (absent : α) (obj : Json) :
    Except FraiseQLError α :=
  match obj.get? key with
  | some part => parse part
  | none => .ok absent

/-- The items of an array; any other value has none. -/
def parseItems {α : Type} (parse : Json → Except FraiseQLError α) (value : Json) : Except FraiseQLError (List α) :=
  match value.asArray? with
  | some items => items.mapM parse
  | none => .ok []

/-- The text before the last underscore and the text after it. -/
def splitLastUnderscore (key : String) : Option (String × String) :=
  let last := (key.toList.reverse.takeWhile (· ≠ '_')).reverse
  if last.length = key.toList.length then none
  else some (String.ofList (key.toList.take (key.toList.length - last.length - 1)), String.ofList last)

/-- `parse_where_field_and_operator` of both parsers, with the operator that `from_str` then returns. -/
def parseWhereFieldAndOperator (key : String) : Option (String × WhereOperator) :=
  match splitLastUnderscore key with
  | none => none
  | some (field, operator) =>
    match WhereOperator.fromStr operator with
    | .ok operator => some (field, operator)
    | .error _ => none

/-- `parse_where_clause` of both parsers; they differ in the condition they make of a field. Keys without an
operator are skipped. -/
def parseWhereObject (condition : String → WhereOperator → Json → WhereClause) (value : Json) : WhereClause :=
  match value.asObject? with
  | none => .and []
  | some entries => .and (entries.filterMap fun (key, value) =>
    (parseWhereFieldAndOperator key).map fun (field, operator) => condition field operator value)

/-! ### Writing SQL -/

/-- `parts.join(sep)`. -/
def joinText (sep : List Char) : List (List Char) → List Char
  | [] => []
  | [part] => part
  | part :: parts => part ++ sep ++ joinText sep parts

def natText (n : Nat) : List Char := Nat.toDigits 10 n

end FraiseQL
