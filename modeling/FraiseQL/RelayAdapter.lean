import FraiseQL.Executor
import FraiseQL.KeysetPaging
import FraiseQL.PostgresAdapter

/-! The relay pages of the PostgreSQL adapter (`postgres/adapter/relay.rs`): the SQL of a page with its
parameters, and the rows it selects from a view. A view is the list of its rows, each with the value of the
cursor column; the WHERE clause and a custom order are decided by the database. -/

namespace FraiseQL.RelayAdapter

open KeysetPaging (ascending descending)
open PostgresAdapter (QueryParam quotePostgresIdentifier directionSql)

/-! ### The SQL of a page -/

/-- The cursor a page starts from. -/
def activeCursor (request : RelayPageRequest) : Option CursorValue :=
  if request.forward then request.after else request.before

def cursorParam : CursorValue → QueryParam
  | .int64 pk => .bigInt pk
  | .uuid uuid => .text uuid

def cursorWherePart (quotedCol : String) (forward : Bool) : CursorValue → String
  | .int64 _ => quotedCol ++ " " ++ (if forward then ">" else "<") ++ " $1"
  | .uuid _ => quotedCol ++ " " ++ (if forward then ">" else "<") ++ " $1::uuid"

def orderSql (quotedCol : String) (forward : Bool) (orderBy : Option (List OrderByClause)) : String :=
  let primary := quotedCol ++ " " ++ (if forward then "ASC" else "DESC")
  match orderBy with
  | some clauses => " ORDER BY " ++ String.intercalate ", " (clauses.map (fun c =>
    "data->>'" ++ escapeQuotes c.field ++ "' " ++ directionSql c.direction) ++ [primary])
  | none => " ORDER BY " ++ primary

def pageWhereSql (cursorPart userPart : Option String) : String :=
  match cursorPart, userPart with
  | none, none => ""
  | none, some user => " WHERE (" ++ user ++ ")"
  | some cursor, none => " WHERE " ++ cursor
  | some cursor, some user => " WHERE " ++ cursor ++ " AND (" ++ user ++ ")"

structure PageQuery where
  sql : String
  params : List QueryParam

/-- The user's conditions, with placeholders after the cursor's. -/
def userWhereSql (request : RelayPageRequest) : Except FraiseQLError (Option (String × List Json)) :=
  match request.whereClause with
  | none => .ok none
  | some clause => (WhereGenerator.generateWithParamOffset (WhereGenerator.new .postgres) clause
      (activeCursor request).toList.length).map some

def pageQuery (request : RelayPageRequest) : Except FraiseQLError PageQuery := do
  let quotedView := quotePostgresIdentifier request.view
  let quotedCol := quotePostgresIdentifier request.cursorColumn
  let cursor := activeCursor request
  let user ← userWhereSql request
  let userParams := ((user.map Prod.snd).getD []).map QueryParam.ofValue
  let limitIdx := cursor.toList.length + userParams.length + 1
  let where_ := pageWhereSql (cursor.map (cursorWherePart quotedCol request.forward)) (user.map Prod.fst)
  let order := orderSql quotedCol request.forward request.orderBy
  let sql := if request.forward then
      "SELECT data FROM " ++ quotedView ++ where_ ++ order ++ " LIMIT $" ++ toString limitIdx
    else
      "SELECT data FROM (SELECT data, " ++ quotedCol ++ " AS _relay_cursor FROM " ++ quotedView ++ where_ ++
        order ++ " LIMIT $" ++ toString limitIdx ++ ") _relay_page ORDER BY _relay_cursor ASC"
  return ⟨sql, cursor.toList.map cursorParam ++ userParams ++ [.bigInt request.limit]⟩

def countQuery (request : RelayPageRequest) : Except FraiseQLError PageQuery :=
  let sql := "SELECT COUNT(*) FROM " ++ quotePostgresIdentifier request.view
  match request.whereClause with
  | none => .ok ⟨sql, []⟩
  | some clause => do
    let (whereSql, params) ← WhereGenerator.generateWithParamOffset (WhereGenerator.new .postgres) clause 0
    return ⟨sql ++ " WHERE (" ++ whereSql ++ ")", params.map QueryParam.ofValue⟩

/-! ### Cursor columns -/

/-- The text a cursor is the encoding of, from the value of the column inside the data. -/
def cursorText : CursorType → Json → Option String
  | .int64, value => value.asI64?.map toString
  | .uuid, value => value.asStr?

def parseCursor : CursorType → String → Option CursorValue
  | .int64, text => (parseI64 text).map .int64
  | .uuid, text => some (.uuid text)

/-- The type of a cursor column: how its values look inside the data, as a cursor's text and as a parameter,
and what the database reads a parameter as. -/
structure KeyColumn (κ : Type) where
  cursorType : CursorType
  inData : κ → Json
  text : κ → String
  cursor : κ → CursorValue
  read : CursorValue → Option κ
  cursorText_inData : ∀ k, cursorText cursorType (inData k) = some (text k)
  parseCursor_text : ∀ k, parseCursor cursorType (text k) = some (cursor k)
  read_cursor : ∀ k, read (cursor k) = some k

/-! ### The two column types -/

theorem parseDigits_toDigits (n : Nat) : parseDigits (Nat.toDigits 10 n) = some n := by
  have hdigits : (Nat.toDigits 10 n).all Char.isDigit = true := by
    rw [List.all_eq_true]
    intro c hc
    exact Nat.isDigit_of_mem_toDigits (by decide) (by decide) hc
  rw [parseDigits, if_pos ⟨Nat.toDigits_ne_nil, hdigits⟩, Nat.ofDigitChars_ten_toDigits]

theorem toDigits_ne_cons {c : Char} (hc : c.isDigit = false) (n : Nat) (cs : List Char) :
    Nat.toDigits 10 n ≠ c :: cs := by
  intro heq
  have hdigit : c.isDigit = true := by
    apply Nat.isDigit_of_mem_toDigits (b := 10) (n := n) (by decide) (by decide)
    rw [heq]
    exact List.mem_cons_self ..
  rw [hc] at hdigit
  cases hdigit

/-- A printed `i64` is read back. -/
theorem parseI64_toString {n : Int} (h : -2 ^ 63 ≤ n ∧ n < 2 ^ 63) : parseI64 (toString n) = some n := by
  have hbound : ∀ value : Option Int, value = some n →
      (value.bind fun n => if -2 ^ 63 ≤ n ∧ n < 2 ^ 63 then some n else none) = some n := by
    rintro _ rfl
    rw [Option.bind_some, if_pos h]
  unfold parseI64
  apply hbound
  cases n with
  | ofNat n =>
    rw [Json.natText_toList]
    split
    · next heq => exact absurd heq (toDigits_ne_cons (by decide) n _)
    · next heq => exact absurd heq (toDigits_ne_cons (by decide) n _)
    · rw [parseDigits_toDigits]
      rfl
  | negSucc n =>
    rw [Json.negText_toList]
    simp only [parseDigits_toDigits]
    rfl

/-- The values of a `BIGINT` column. -/
abbrev BigInt := { n : Int // -2 ^ 63 ≤ n ∧ n < 2 ^ 63 }

def bigIntColumn : KeyColumn BigInt where
  cursorType := .int64
  inData n := .num (.int ⟨n.val, n.property.1, n.property.2.trans (by decide)⟩)
  text n := toString n.val
  cursor n := .int64 n.val
  read
    | .int64 n => if h : -2 ^ 63 ≤ n ∧ n < 2 ^ 63 then some ⟨n, h⟩ else none
    | .uuid _ => none
  cursorText_inData n := by
    show (if n.val < 2 ^ 63 then some n.val else none).map toString = _
    rw [if_pos n.property.2]
    rfl
  parseCursor_text n := by
    show (parseI64 (toString n.val)).map CursorValue.int64 = _
    rw [parseI64_toString n.property]
    rfl
  read_cursor n := dif_pos n.property

/-- A `uuid` as the database prints it: groups of lower case hexadecimal digits. -/
def isUuidText (s : String) : Bool :=
  (s.toList.splitOn '-').map List.length = [8, 4, 4, 4, 12] &&
    s.toList.all fun c => c.isDigit || ('a' ≤ c && c ≤ 'f') || c = '-'

/-- The values of a `UUID` column, in the order of their texts. -/
abbrev Uuid := { s : String // isUuidText s = true }

def uuidColumn : KeyColumn Uuid where
  cursorType := .uuid
  inData u := .str u.val
  text u := u.val
  cursor u := .uuid u.val
  read
    | .int64 _ => none
    | .uuid s => if h : isUuidText s = true then some ⟨s, h⟩ else none
  cursorText_inData _ := rfl
  parseCursor_text _ := rfl
  read_cursor u := dif_pos u.property

/-! ### Pages of a view -/

structure Row (κ : Type) where
  key : κ
  data : Json

/-- A database: the rows of a view with the values of a cursor column, the rows a WHERE clause lets through,
and the comparison of a custom order. -/
structure Database (κ : Type) where
  column : KeyColumn κ
  rows : String → String → List (Row κ)
  admits : WhereClause → Row κ → Bool
  compare : List OrderByClause → Row κ → Row κ → Ordering

namespace Database

variable {κ : Type} [LinearOrder κ] (db : Database κ)

def connectionRows (request : RelayPageRequest) : List (Row κ) :=
  (db.rows request.view request.cursorColumn).filter fun row => request.whereClause.all fun c => db.admits c row

/-- The rows on the other side of the cursor. -/
def beyond (forward : Bool) (cursor : Option κ) (rows : List (Row κ)) : List (Row κ) :=
  match cursor with
  | none => rows
  | some c => rows.filter fun row => if forward then decide (c < row.key) else decide (row.key < c)

/-- `ORDER BY`: the custom clauses, then the cursor column. -/
def ordered (request : RelayPageRequest) (rows : List (Row κ)) : List (Row κ) :=
  match request.orderBy with
  | none => if request.forward then ascending Row.key rows else descending Row.key rows
  | some clauses => rows.mergeSort fun a b =>
    match db.compare clauses a b with
    | .lt => true
    | .gt => false
    | .eq => if request.forward then decide (a.key ≤ b.key) else decide (b.key ≤ a.key)

/-- The rows the page query selects. -/
def page (request : RelayPageRequest) (cursor : Option κ) : List (Row κ) :=
  let selected := (db.ordered request (beyond request.forward cursor (db.connectionRows request))).take request.limit
  if request.forward then selected else ascending Row.key selected

def badCursor : FraiseQLError := .database "invalid input syntax for the cursor column" (some "22P02")

/-- The cursor parameter as the database reads it. -/
def readCursor : Option CursorValue → Except FraiseQLError (Option κ)
  | none => .ok none
  | some cursor => (okOr (db.column.read cursor) badCursor).map some

def executeRelayPage (request : RelayPageRequest) : Except FraiseQLError RelayPageResult := do
  let _ ← pageQuery request
  let cursor ← db.readCursor (activeCursor request)
  let rows := (db.page request cursor).map Row.data
  if request.includeTotalCount then do
    let _ ← countQuery request
    return ⟨rows, some (db.connectionRows request).length⟩
  else return ⟨rows, none⟩

omit [LinearOrder κ] in
theorem readCursor_cursor (k : Option κ) : db.readCursor (k.map db.column.cursor) = .ok k := by
  cases k with
  | none => rfl
  | some k =>
    rw [Option.map_some, readCursor, db.column.read_cursor]
    rfl

end Database

end FraiseQL.RelayAdapter
