import FraiseQL.QueryConditions
import FraiseQL.WhereGenerator

/-! The SQL that the PostgreSQL adapter builds for a read (`postgres/adapter/mod.rs`, `order_by.rs`): the
selected columns, the WHERE clause, the order and the page, and the parameters bound along with it. -/

namespace FraiseQL.PostgresAdapter

open SqlLex (quote)

/-- `QueryParam`. The sized integers and floats of the source are never built from a value. -/
inductive QueryParam where
  | null
  | bool (b : Bool)
  | bigInt (n : Int)
  | text (s : String)
  | json (value : Json)

/-- `QueryParam::from`. -/
def QueryParam.ofValue : Json → QueryParam
  | .null => .null
  | .bool b => .bool b
  | .num n => .text (Json.numberText n)
  | .str s => .text s
  | .arr items => .json (.arr items)
  | .obj entries => .json (.obj entries)

def quotePostgresIdentifier (identifier : String) : String :=
  String.intercalate "." ((identifier.toList.splitOn '.').map fun part => String.ofList (quote .double part))

/-! ### Order -/

def jsonFieldExpr (key : String) : String := "data->>'" ++ key ++ "'"

/-- The type a sorted value is cast to. -/
def castType : OrderByFieldType → Option String
  | .text => none
  | .integer => some "bigint"
  | .numeric => some "numeric"
  | .boolean => some "boolean"
  | .dateTime => some "timestamptz"
  | .date => some "date"
  | .time => some "time"

def typedJsonFieldExpr (key : String) (fieldType : OrderByFieldType) : String :=
  match castType fieldType with
  | none => jsonFieldExpr key
  | some pgType => "(" ++ jsonFieldExpr key ++ ")::" ++ pgType

/-- `as_sql`. -/
def directionSql : OrderDirection → String
  | .asc => "ASC"
  | .desc => "DESC"

def sortExpr (cc : WhereFilter.CharCase) (clause : OrderByClause) : String :=
  match clause.nativeColumn with
  | some column => column
  | none => typedJsonFieldExpr (WhereFilter.toSnakeCase cc clause.field) clause.fieldType

/-- The loop of `append_order_by`. -/
def pushOrderBy (cc : WhereFilter.CharCase) (first : Bool) (sql : String) :
    List OrderByClause → Except FraiseQLError String
  | [] => .ok sql
  | clause :: clauses => do
    OrderByClause.validateFieldName clause.field
    pushOrderBy cc false
      ((if first then sql else sql ++ ", ") ++ (sortExpr cc clause ++ " " ++ directionSql clause.direction))
      clauses

/-- `append_order_by`, which also says whether it appended anything. -/
def appendOrderBy (cc : WhereFilter.CharCase) (sql : String) (orderBy : Option (List OrderByClause)) :
    Except FraiseQLError (Bool × String) :=
  match orderBy.filter fun clauses => !clauses.isEmpty with
  | none => .ok (false, sql)
  | some clauses => (pushOrderBy cc true (sql ++ " ORDER BY ") clauses).map (true, ·)

/-! ### Reads -/

/-- The WHERE clause, and the parameters it binds. -/
def appendWhere (sql : String) : Option WhereClause → Except FraiseQLError (String × List QueryParam)
  | none => .ok (sql, [])
  | some clause => do
    let (whereSql, whereParams) ← WhereGenerator.generate (WhereGenerator.new .postgres) clause
    return (sql ++ " WHERE " ++ whereSql, whereParams.map QueryParam.ofValue)

/-- A `LIMIT` or an `OFFSET`. -/
def appendBound (keyword : String) (sql : String × List QueryParam) : Option Nat → String × List QueryParam
  | none => sql
  | some n => (sql.1 ++ " " ++ keyword ++ " $" ++ toString (sql.2.length + 1), sql.2 ++ [.bigInt n])

/-- The read of a view, from its first words on. -/
def buildSelect (cc : WhereFilter.CharCase) (select view : String) (whereClause : Option WhereClause)
    (limit offset : Option Nat) (orderBy : Option (List OrderByClause)) :
    Except FraiseQLError (String × List QueryParam) := do
  let (sql, params) ← appendWhere ("SELECT " ++ select ++ " FROM " ++ quotePostgresIdentifier view) whereClause
  let (_, sql) ← appendOrderBy cc sql orderBy
  return appendBound "OFFSET" (appendBound "LIMIT" (sql, params) limit) offset

/-- `build_where_select_sql_ordered`, which `execute_where_query` runs. -/
def buildWhereSelectSqlOrdered (cc : WhereFilter.CharCase) (view : String) (whereClause : Option WhereClause)
    (limit offset : Option Nat) (orderBy : Option (List OrderByClause)) :
    Except FraiseQLError (String × List QueryParam) :=
  buildSelect cc "data" view whereClause limit offset orderBy

/-- The SQL of `execute_with_projection_impl`. -/
def buildProjectionSql (cc : WhereFilter.CharCase) (view : String) (projection : Option String)
    (whereClause : Option WhereClause) (limit offset : Option Nat) (orderBy : Option (List OrderByClause)) :
    Except FraiseQLError (String × List QueryParam) :=
  match projection with
  | none => buildWhereSelectSqlOrdered cc view whereClause limit offset orderBy
  | some template => buildSelect cc template view whereClause limit offset orderBy

/-! ### The order clause -/

/-- The name is refused by `validate_field_name`. -/
def Refused (clause : OrderByClause) : Prop :=
  ∃ e, OrderByClause.validateFieldName clause.field = .error e

/-- The text of the loop. -/
def orderText (cc : WhereFilter.CharCase) (first : Bool) : List OrderByClause → String
  | [] => ""
  | clause :: clauses =>
    (if first then "" else ", ") ++ (sortExpr cc clause ++ " " ++ directionSql clause.direction) ++
      orderText cc false clauses

theorem pushOrderBy_refused (cc : WhereFilter.CharCase) {clauses : List OrderByClause}
    (h : ∃ clause ∈ clauses, Refused clause) (first : Bool) (sql : String) :
    ∃ e, pushOrderBy cc first sql clauses = .error e := by
  induction clauses generalizing first sql with
  | nil =>
    obtain ⟨_, hmem, _⟩ := h
    cases hmem
  | cons clause clauses ih =>
    rw [pushOrderBy]
    cases hvalid : OrderByClause.validateFieldName clause.field with
    | error e => exact ⟨e, rfl⟩
    | ok u =>
      refine ih ?_ false _
      obtain ⟨c, hmem, e, he⟩ := h
      rcases List.mem_cons.mp hmem with rfl | hmem
      · rw [hvalid] at he
        cases he
      · exact ⟨c, hmem, e, he⟩

theorem pushOrderBy_accepted {cc : WhereFilter.CharCase} {clauses : List OrderByClause}
    (h : ∀ clause ∈ clauses, ¬Refused clause) (first : Bool) (sql : String) :
    pushOrderBy cc first sql clauses = .ok (sql ++ orderText cc first clauses) := by
  induction clauses generalizing first sql with
  | nil => simp [pushOrderBy, orderText]
  | cons clause clauses ih =>
    rw [pushOrderBy]
    cases hvalid : OrderByClause.validateFieldName clause.field with
    | error e => exact absurd ⟨e, hvalid⟩ (h clause List.mem_cons_self)
    | ok u =>
      show pushOrderBy cc false _ clauses = _
      rw [ih (fun c hc => h c (List.mem_cons_of_mem _ hc)), orderText]
      cases first with
      | true => simp [String.append_assoc]
      | false => simp [String.append_assoc]

end FraiseQL.PostgresAdapter
