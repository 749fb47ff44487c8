import FraiseQL.Base64Codec
import FraiseQL.ExecutorSecurity
import FraiseQL.MapEntries
import FraiseQL.RelayAdapter

/-! Relay pagination end to end: the executor's relay query over the adapter's pages, as a client sees it that
follows the cursors of the responses. Forward pages cover a connection. The backward page is fetched with one
row too many at its far end, sorted ascending, and cut at the near end, so it is right only when nothing is cut
off. The fetched row count is the page size plus one as a `u32`, which is zero for the largest page size. -/

namespace FraiseQL.RelayPagination

open KeysetPaging RelayAdapter ResultProjector Executor Row List Json

/-! ### A connection -/

/-- A relay query over a database, with the filter of the client. -/
structure Connection (κ : Type) [LinearOrder κ] where
  x : Executor
  m : QueryMatch
  ctx : Option SecurityContext
  filter : Option Json
  db : Database κ
  view : String
  cursorColumn : String
  clause : Option WhereClause
  relay : x.relay = some db.executeRelayPage
  source : m.queryDef.sqlSource = some view
  column : m.queryDef.relayCursorColumn = some cursorColumn
  cursorType : m.queryDef.relayCursorType = db.column.cursorType
  context : m.queryDef.injectParams.isEmpty = true ∨ ctx.isSome = true
  conditions : ∃ rls secured user, evaluateRls x.rlsPolicy ctx m.queryDef.name = .ok rls ∧
    Executor.securityWhere m.queryDef rls ctx (calledWithoutContext m.queryDef) = .ok secured ∧
    userWhere x.charCase m.queryDef filter = .ok user ∧ clause = composeWhere secured user
  /-- the clause has SQL -/
  generates : ∀ c, clause = some c → ∀ offset, ∃ sql,
    WhereGenerator.generateWithParamOffset (WhereGenerator.new .postgres) c offset = .ok sql
  /-- the `base64` crate decodes what it has encoded -/
  decode_encode : ∀ s, x.base64.decode (x.base64.encode s) = some s
  distinct : Distinct Row.key ((db.rows view cursorColumn).filter fun row => clause.all fun c => db.admits c row)
  /-- the view exposes the cursor column inside its data -/
  exposes : ∀ row ∈ db.rows view cursorColumn, row.data.get? cursorColumn = some (db.column.inData row.key)

namespace Connection

variable {κ : Type} [LinearOrder κ] (s : Connection κ)

/-- The rows of the connection. -/
def rows : List (Row κ) :=
  (s.db.rows s.view s.cursorColumn).filter fun row => s.clause.all fun c => s.db.admits c row

/-- The cursor of a key. -/
def cursorOf (k : κ) : String := s.x.base64.encode (s.db.column.text k)

/-! ### The client -/

/-- The variables of a page: its size under one key, the cursor under another. -/
def pageVars (cursorName sizeName : String) (n : Nat) (cursor : Option String) (filter : Option Json) : Json :=
  .obj ((cursor.map fun c => (cursorName, .str c)).toList ++ (sizeName, Json.ofNat n) ::
    (filter.map fun f => ("where", f)).toList)

/-- The nodes of a connection, whether there are more, and the cursor to go on with. -/
def readPage (name moreName cursorName : String) (response : Json) : Option (Page Json String) := do
  let connection ← (response.get? "data").bind (Json.get? name)
  let edges ← (connection.get? "edges").bind Json.asArray?
  let nodes ← edges.mapM (Json.get? "node")
  let pageInfo ← connection.get? "pageInfo"
  let more ← (pageInfo.get? moreName).bind Json.asBool?
  return ⟨nodes, more, (pageInfo.get? cursorName).bind Json.asStr?⟩

def run (vars : Json) (moreName cursorName : String) : Option (Page Json String) :=
  match (s.x.executeRelayQuery s.m (some vars) s.ctx).outcome with
  | .ok response => readPage s.m.queryDef.name moreName cursorName response
  | .error _ => none

/-- `first: n, after: cursor`. -/
def pageAfter (n : Nat) (cursor : Option String) : Option (Page Json String) :=
  s.run (pageVars "after" "first" n cursor s.filter) "hasNextPage" "endCursor"

/-- `last: n, before: cursor`. -/
def pageBefore (n : Nat) (cursor : Option String) : Option (Page Json String) :=
  s.run (pageVars "before" "last" n cursor s.filter) "hasPreviousPage" "startCursor"

/-! ### Coverage -/

/-- Following the pages from the start visits every row once, in cursor order, and ends with the page that
says there is no next one. -/
def CoversForward (n : Nat) : Prop :=
  ∃ pages, Follows (s.pageAfter n) none pages ∧ pages.flatten = (ascending Row.key s.rows).map Row.data

/-- The rows before a key, in cursor order. -/
def before (c : κ) : List (Row κ) := (ascending Row.key s.rows).filter fun row => decide (row.key < c)

/-- The page before a key holds the last `n` rows before it, and the pages from there on visit every row
before it once. -/
def CoversBackward (n : Nat) (c : κ) : Prop :=
  (∃ p, s.pageBefore n (some (s.cursorOf c)) = some p ∧
    p.items = ((s.before c).drop ((s.before c).length - n)).map Row.data ∧
    (p.more = true ↔ n < (s.before c).length)) ∧
  ∃ pages, Follows (s.pageBefore n) (some (s.cursorOf c)) pages ∧
    pages.reverse.flatten = (s.before c).map Row.data

/-! ### The request of a page -/

/-- What a page of at most `size` rows asks the adapter for. -/
def request (forward : Bool) (k : Option κ) (size : Nat) : RelayPageRequest where
  view := s.view
  cursorColumn := s.cursorColumn
  after := if forward then k.map s.db.column.cursor else none
  before := if forward then none else k.map s.db.column.cursor
  limit := (size + 1) % 2 ^ 32
  forward := forward
  whereClause := s.clause
  orderBy := none
  includeTotalCount := (s.m.selections.find? fun sel => sel.name = s.m.queryDef.name).any fun sel =>
    Executor.selectionsContainField "totalCount" sel.nestedFields

/-- The page size of a number of the client. -/
def size (n : Nat) : Nat := min n (2 ^ 32 - 1)

theorem decodeCursor_cursorOf (k : κ) :
    s.x.decodeCursor s.m.queryDef.relayCursorType (s.cursorOf k) = some (s.db.column.cursor k) := by
  have hparse := s.db.column.parseCursor_text k
  rw [s.cursorType]
  cases htype : s.db.column.cursorType with
  | int64 | uuid =>
    rw [htype] at hparse
    rw [decodeCursor, cursorOf, s.decode_encode]
    exact hparse

theorem cursorArg_cursorOf (argument : String) (k : Option κ) :
    s.x.cursorArg s.m.queryDef.relayCursorType argument (k.map fun k => .str (s.cursorOf k)) =
      .ok (k.map s.db.column.cursor) := by
  cases k with
  | none => rfl
  | some k =>
    show (okOr (s.x.decodeCursor _ (s.cursorOf k)) _).map some = _
    rw [s.decodeCursor_cursorOf k]
    rfl

variable {n : Nat}

theorem pageSizeArg_ofNat (hn : n < 2 ^ 64) : pageSizeArg (some (ofNat n)) = some (size n) := by
  have hread : (ofNat n).asU64? = some n := by
    show (if 0 ≤ ((n % 2 ^ 64 : Nat) : Int) then some ((n % 2 ^ 64 : Nat) : Int).toNat else none) = some n
    rw [if_pos (Int.natCast_nonneg _), Int.toNat_natCast, Nat.mod_eq_of_lt hn]
  rw [pageSizeArg, Option.bind_some, hread]
  rfl

variable {k : Option κ} {forward : Bool}

/-- The variables of a page lead to its request. -/
theorem relayPlan_eq {vars : Json}
    (hafter : vars.get? "after" = if forward then k.map fun k => .str (s.cursorOf k) else none)
    (hbefore : vars.get? "before" = if forward then none else k.map fun k => .str (s.cursorOf k))
    (hdirection : direction (pageSizeArg (vars.get? "first"))
      (pageSizeArg (vars.get? "last")) = (forward, size n))
    (hwhere : vars.get? "where" = s.filter) (horder : vars.get? "orderBy" = none) :
    s.x.relayPlan s.m (some vars) s.ctx =
      .ok ⟨s.request forward k (size n), size n, s.db.executeRelayPage⟩ := by
  obtain ⟨rls, secured, user, hrls, hsecured, huser, hclause⟩ := s.conditions
  have hguard : (!s.m.queryDef.injectParams.isEmpty && s.ctx.isNone) = false := by
    obtain hempty | hctx := s.context
    · rw [hempty]
      rfl
    · rw [Option.isNone_eq_false_iff.mpr hctx, Bool.and_false]
  have hafter' : s.x.cursorArg s.m.queryDef.relayCursorType "after" (vars.get? "after") =
      .ok (s.request forward k (size n)).after := by
    rw [hafter]
    cases forward with
    | false => rfl
    | true => exact s.cursorArg_cursorOf "after" k
  have hbefore' : s.x.cursorArg s.m.queryDef.relayCursorType "before" (vars.get? "before") =
      .ok (s.request forward k (size n)).before := by
    rw [hbefore]
    cases forward with
    | false => exact s.cursorArg_cursorOf "before" k
    | true => rfl
  have horder' : orderByArg s.x.charCase s.x.schema s.m.queryDef
      (whenEnabled s.m.queryDef.autoParams.hasOrderBy (vars.get? "orderBy")) = .ok none := by
    rw [horder, whenEnabled, ite_self]
    rfl
  rw [relayPlan, hguard, if_neg Bool.false_ne_true]
  simp only [Outcome.bind_eq_ok, Outcome.pure_eq_ok, Option.bind_some, hdirection, hwhere]
  refine ⟨s.view, ?_, s.cursorColumn, ?_, s.db.executeRelayPage, ?_, rls, hrls, secured, hsecured,
    _, hafter', _, hbefore', user, huser, none, horder', ?_⟩
  · rw [s.source, okOr]
  · rw [s.column, okOr]
  · rw [s.relay, okOr]
  · rw [← hclause]
    rfl

/-! ### The rows of a page -/

/-- The rows a page fetches. -/
def fetched (forward : Bool) (k : Option κ) (size : Nat) : List (Row κ) := s.db.page (s.request forward k size) k

/-- The rows a page shows. -/
def shown (forward : Bool) (k : Option κ) (size : Nat) : List (Row κ) := (s.fetched forward k size).take size

theorem activeCursor_request (forward : Bool) (k : Option κ) (size : Nat) :
    activeCursor (s.request forward k size) = k.map s.db.column.cursor := by
  cases forward <;> rfl

theorem pageQuery_request (forward : Bool) (k : Option κ) (size : Nat) :
    ∃ query, pageQuery (s.request forward k size) = .ok query := by
  have huser : ∃ user, userWhereSql (s.request forward k size) = .ok user := by
    have hclause : (s.request forward k size).whereClause = s.clause := rfl
    unfold userWhereSql
    rw [hclause]
    cases hsome : s.clause with
    | none => exact ⟨none, rfl⟩
    | some clause =>
      obtain ⟨sql, hsql⟩ := s.generates clause hsome (activeCursor (s.request forward k size)).toList.length
      dsimp only
      rw [hsql]
      exact ⟨some sql, rfl⟩
  obtain ⟨user, huser⟩ := huser
  unfold pageQuery
  rw [huser]
  exact ⟨_, rfl⟩

theorem countQuery_request (forward : Bool) (k : Option κ) (size : Nat) :
    ∃ query, countQuery (s.request forward k size) = .ok query := by
  have hclause : (s.request forward k size).whereClause = s.clause := rfl
  unfold countQuery
  rw [hclause]
  cases hsome : s.clause with
  | none => exact ⟨_, rfl⟩
  | some clause =>
    obtain ⟨sql, hsql⟩ := s.generates clause hsome 0
    dsimp only
    rw [hsql]
    exact ⟨_, rfl⟩

theorem executeRelayPage_request (forward : Bool) (k : Option κ) (size : Nat) :
    ∃ total, s.db.executeRelayPage (s.request forward k size) =
      .ok ⟨(s.fetched forward k size).map data, total⟩ := by
  obtain ⟨page, hpage⟩ := s.pageQuery_request forward k size
  obtain ⟨count, hcount⟩ := s.countQuery_request forward k size
  rw [Database.executeRelayPage, hpage, hcount, s.activeCursor_request, s.db.readCursor_cursor]
  cases htotal : (s.request forward k size).includeTotalCount with
  | false => exact ⟨none, rfl⟩
  | true => exact ⟨some (s.db.connectionRows (s.request forward k size)).length, rfl⟩

/-! ### The response to a page -/

/-- The edge of a row, with its cursor. -/
def edgeOf (row : Row κ) : String × Json :=
  (s.cursorOf row.key, .obj [("cursor", .str (s.cursorOf row.key)), ("node", row.data)])

variable {row : Row κ}

theorem rowCursor_data (h : row ∈ s.db.rows s.view s.cursorColumn) :
    s.x.rowCursor s.m.queryDef s.cursorColumn row.data = .ok (s.cursorOf row.key) := by
  have htext := s.db.column.cursorText_inData row.key
  rw [rowCursor, s.exposes row h, s.cursorType, cursorOf]
  cases htype : s.db.column.cursorType with
  | int64 =>
    rw [htype, cursorText, Option.map_eq_some_iff] at htext
    obtain ⟨value, hvalue, htext⟩ := htext
    rw [← htext]
    dsimp only
    rw [Option.bind_some, hvalue]
    rfl
  | uuid =>
    rw [htype, cursorText] at htext
    dsimp only
    rw [Option.bind_some, htext]
    rfl

theorem edges_data {rows : List (Row κ)} (h : ∀ row ∈ rows, row ∈ s.db.rows s.view s.cursorColumn) :
    s.x.edges s.m.queryDef s.cursorColumn (rows.map data) = .ok (rows.map s.edgeOf) := by
  induction rows with
  | nil => rfl
  | cons row rows ih =>
    rw [map_cons, edges, s.rowCursor_data (h row (mem_cons_self ..)),
      ih fun row hrow => h row (mem_cons_of_mem _ hrow)]
    rfl

theorem nodes_edgeOf (rows : List (Row κ)) :
    ((rows.map s.edgeOf).map Prod.snd).mapM (get? "node") = some (rows.map data) := by
  induction rows with
  | nil => rfl
  | cons row rows ih =>
    rw [map_cons, map_cons, mapM_cons, ih]
    rfl

theorem asStr?_optionalText (cursor : Option String) : (optionalText cursor).asStr? = cursor := by
  cases cursor <;> rfl

/-- A client reads the rows of a connection back, with the flag and the cursor it asks for. -/
theorem readPage_connection (rows : List (Row κ)) (next prev : Bool) (total : Option (Option Nat))
    (name : String) :
    readPage name "hasNextPage" "endCursor" (wrapInDataEnvelope
      (connection (rows.map s.edgeOf) next prev total) name) =
        some ⟨rows.map data, next, (rows.map fun row => s.cursorOf row.key).getLast?⟩ ∧
    readPage name "hasPreviousPage" "startCursor" (wrapInDataEnvelope
      (connection (rows.map s.edgeOf) next prev total) name) =
        some ⟨rows.map data, prev, (rows.map fun row => s.cursorOf row.key).head?⟩ := by
  have hget (conn : Json) : ((wrapInDataEnvelope conn name).get? "data").bind (get? name) =
      some conn := by
    show Json.lookup name [(name, conn)] = some conn
    rw [MapEntries.lookup_cons, if_pos rfl]
  have hcursors : (rows.map s.edgeOf).map Prod.fst = rows.map fun row => s.cursorOf row.key := by
    rw [map_map]
    rfl
  unfold readPage
  rw [hget]
  constructor
  · show (do
      let nodes ← ((rows.map s.edgeOf).map Prod.snd).mapM (get? "node")
      pure (Page.mk nodes next (optionalText ((rows.map s.edgeOf).map Prod.fst).getLast?).asStr?)) = _
    rw [s.nodes_edgeOf, asStr?_optionalText, hcursors]
    rfl
  · show (do
      let nodes ← ((rows.map s.edgeOf).map Prod.snd).mapM (get? "node")
      pure (Page.mk nodes prev (optionalText ((rows.map s.edgeOf).map Prod.fst).head?).asStr?)) = _
    rw [s.nodes_edgeOf, asStr?_optionalText, hcursors]
    rfl

theorem mem_beyond {rows : List (Row κ)} (h : row ∈ Database.beyond forward k rows) : row ∈ rows := by
  cases k with
  | none => exact h
  | some c => exact (mem_filter.mp h).1

/-- The rows on the other side of a key, in cursor order. -/
def ahead (forward : Bool) (k : Option κ) : List (Row κ) :=
  ascending Row.key (Database.beyond forward k s.rows)

theorem distinct_beyond (forward : Bool) (k : Option κ) : Distinct key (Database.beyond forward k s.rows) := by
  cases k with
  | none => exact s.distinct
  | some c => exact List.Pairwise.filter _ s.distinct

theorem increasing_ahead (forward : Bool) (k : Option κ) : Increasing key (s.ahead forward k) :=
  increasing_ascending (s.distinct_beyond forward k)

theorem mem_rows_of_ahead (h : row ∈ s.ahead forward k) : row ∈ s.rows :=
  mem_beyond ((ascending_perm _).mem_iff.mp h)

/-- A forward page fetches from the start of the rows ahead. -/
theorem fetched_forward (k : Option κ) (size : Nat) :
    s.fetched true k size = (s.ahead true k).take ((size + 1) % 2 ^ 32) := rfl

/-- A backward page fetches from their end. -/
theorem fetched_backward (k : Option κ) (size : Nat) :
    s.fetched false k size = (s.ahead false k).drop ((s.ahead false k).length - (size + 1) % 2 ^ 32) :=
  ascending_take_descending (s.distinct_beyond false k) _

theorem mem_ahead_of_fetched {size : Nat} (h : row ∈ s.fetched forward k size) : row ∈ s.ahead forward k := by
  cases forward with
  | true => exact mem_of_mem_take (s.fetched_forward k size ▸ h)
  | false => exact mem_of_mem_drop (s.fetched_backward k size ▸ h)

/-- The connection a run returns. -/
theorem run_eq {vars : Json} (hplan : s.x.relayPlan s.m (some vars) s.ctx =
      .ok ⟨s.request forward k (size n), size n, s.db.executeRelayPage⟩) :
    ∃ next prev total, (if forward then next else prev) =
        decide (size n < (s.fetched forward k (size n)).length) ∧
      ∀ moreName cursorName, s.run vars moreName cursorName = readPage s.m.queryDef.name moreName cursorName
        (wrapInDataEnvelope
          (connection ((s.shown forward k (size n)).map s.edgeOf) next prev total) s.m.queryDef.name) := by
  obtain ⟨total, hpage⟩ := s.executeRelayPage_request forward k (size n)
  have hedges : s.x.edges s.m.queryDef s.cursorColumn ((s.shown forward k (size n)).map data) =
      .ok ((s.shown forward k (size n)).map s.edgeOf) := by
    apply s.edges_data
    intro row hrow
    have hahead := s.mem_ahead_of_fetched (mem_of_mem_take hrow)
    exact (mem_filter.mp (s.mem_rows_of_ahead hahead)).1
  have hshown : ((s.fetched forward k (size n)).map data).take (size n) =
      (s.shown forward k (size n)).map data := map_take.symm
  have hcolumn : (s.request forward k (size n)).cursorColumn = s.cursorColumn := rfl
  have hforward : (s.request forward k (size n)).forward = forward := rfl
  have hrun : (s.x.executeRelayQuery s.m (some vars) s.ctx).outcome = s.x.relayResponse s.m.queryDef
      (s.request forward k (size n)) (size n) ⟨(s.fetched forward k (size n)).map data, total⟩ := by
    rw [executeRelayQuery, Traced.outcome_bind, Traced.outcome_lift, hplan]
    show (Traced.call _ (s.db.executeRelayPage (s.request forward k (size n))) >>= _).outcome = _
    rw [hpage]
    rfl
  rw [relayResponse, hshown, hcolumn, hedges, hforward, length_map] at hrun
  let extra := decide (size n < (s.fetched forward k (size n)).length)
  let totalCount := if (s.request forward k (size n)).includeTotalCount then some total else none
  cases forward with
  | true =>
    refine ⟨extra, (s.request true k (size n)).after.isSome, totalCount, if_pos rfl, ?_⟩
    intro moreName cursorName
    rw [run, hrun]
    rfl
  | false =>
    refine ⟨(s.request false k (size n)).before.isSome, extra, totalCount, if_neg Bool.false_ne_true, ?_⟩
    intro moreName cursorName
    rw [run, hrun]
    rfl

theorem relayPlan_page (hn : n < 2 ^ 64) (forward : Bool) (k : Option κ) :
    s.x.relayPlan s.m (some (pageVars (cond forward "after" "before") (cond forward "first" "last") n (k.map s.cursorOf)
      s.filter)) s.ctx = .ok ⟨s.request forward k (size n), size n, s.db.executeRelayPage⟩ := by
  apply s.relayPlan_eq
  · cases forward <;> cases k <;> cases s.filter <;> rfl
  · cases forward <;> cases k <;> cases s.filter <;> rfl
  · have hsize := pageSizeArg_ofNat hn
    cases forward <;> cases k <;> cases s.filter <;> exact hsize ▸ rfl
  · cases forward <;> cases k <;> cases s.filter <;> rfl
  · cases forward <;> cases k <;> cases s.filter <;> rfl

theorem pageAfter_eq (hn : n < 2 ^ 64) (k : Option κ) :
    s.pageAfter n (k.map s.cursorOf) = some ⟨(s.shown true k (size n)).map data,
      decide (size n < (s.fetched true k (size n)).length),
      ((s.shown true k (size n)).map fun row => s.cursorOf row.key).getLast?⟩ := by
  obtain ⟨next, prev, total, hmore, hrun⟩ := s.run_eq (s.relayPlan_page hn true k)
  simp only [cond_true] at hrun
  rw [pageAfter, hrun, (s.readPage_connection _ next prev total _).1, ← hmore, if_pos rfl]

theorem pageBefore_eq (hn : n < 2 ^ 64) (k : Option κ) :
    s.pageBefore n (k.map s.cursorOf) = some ⟨(s.shown false k (size n)).map data,
      decide (size n < (s.fetched false k (size n)).length),
      ((s.shown false k (size n)).map fun row => s.cursorOf row.key).head?⟩ := by
  obtain ⟨next, prev, total, hmore, hrun⟩ := s.run_eq (s.relayPlan_page hn false k)
  simp only [cond_false] at hrun
  rw [pageBefore, hrun, (s.readPage_connection _ next prev total _).2, ← hmore, if_neg Bool.false_ne_true]

/-! ### Forward -/

theorem size_of_lt (h : n < 2 ^ 32 - 1) : size n = n := min_eq_left (Nat.le_of_lt h)

theorem limit_of_lt (h : n < 2 ^ 32 - 1) : (n + 1) % 2 ^ 32 = n + 1 := by
  apply Nat.mod_eq_of_lt
  omega

theorem ahead_of_mem (h : row ∈ s.ahead true k) :
    s.ahead true (some row.key) = (s.ahead true k).filter fun other => decide (row.key < other.key) := by
  rw [ahead, ahead, ← ascending_filter (s.distinct_beyond true k)]
  cases k with
  | none => rfl
  | some c =>
    have hc : c < row.key := by
      have hmem := (mem_filter.mp ((ascending_perm _).mem_iff.mp h)).2
      exact of_decide_eq_true hmem
    apply congrArg (ascending key)
    show s.rows.filter _ = (s.rows.filter _).filter _
    rw [filter_filter]
    apply filter_congr
    intro other _
    show decide (row.key < other.key) = (decide (row.key < other.key) && decide (c < other.key))
    by_cases hlt : row.key < other.key
    · rw [decide_eq_true hlt, decide_eq_true (hc.trans hlt)]
      rfl
    · rw [decide_eq_false hlt]
      rfl

/-- What is ahead at a cursor. -/
def Left (start : Option String) (rest : List Json) : Prop :=
  ∃ k : Option κ, start = k.map s.cursorOf ∧ rest = (s.ahead true k).map Row.data

/-- Forward pages show the next `n` rows and go on where they end. -/
theorem serves_pageAfter (hn : 1 ≤ n) (hsmall : n < 2 ^ 32 - 1) : Serves (s.pageAfter n) n s.Left := by
  rintro _ _ ⟨k, rfl, rfl⟩
  have hshown : s.shown true k (size n) = (s.ahead true k).take n := by
    rw [shown, fetched_forward, size_of_lt hsmall, limit_of_lt hsmall, take_take, min_eq_left (Nat.le_succ n)]
  have hmore : decide (size n < (s.fetched true k (size n)).length) =
      decide (n < ((s.ahead true k).map data).length) := by
    rw [fetched_forward, size_of_lt hsmall, limit_of_lt hsmall, length_take, length_map]
    apply decide_eq_decide.mpr
    omega
  refine ⟨_, s.pageAfter_eq (by omega) k, ?_, hmore, ?_⟩
  · rw [hshown, map_take]
  · intro hlt
    rw [length_map] at hlt
    -- the page ends with a row, and what is ahead of it is what the page leaves
    obtain ⟨init, row, htake⟩ : ∃ init row, (s.ahead true k).take n = init ++ [row] := by
      obtain hnil | ⟨init, row, htake⟩ := eq_nil_or_concat ((s.ahead true k).take n)
      · have hlength := congrArg List.length hnil
        rw [length_take, length_nil] at hlength
        omega
      · exact ⟨init, row, by rw [htake, concat_eq_append]⟩
    have hsplit : s.ahead true k = init ++ row :: (s.ahead true k).drop n := by
      rw [append_cons, ← htake, take_append_drop]
    have hrow : row ∈ s.ahead true k := by
      rw [hsplit]
      exact mem_append_right _ (mem_cons_self ..)
    have hinc := s.increasing_ahead true k
    rw [hsplit] at hinc
    refine ⟨s.cursorOf row.key, ?_, some row.key, rfl, ?_⟩
    · dsimp only
      rw [hshown, htake, map_append, map_singleton, getLast?_append_of_ne_nil _ (by simp)]
      rfl
    · rw [s.ahead_of_mem hrow, ← map_drop]
      apply congrArg (List.map data)
      nth_rewrite 2 [hsplit]
      exact (filter_after hinc).symm

theorem coversForward (hn : 1 ≤ n) (hsmall : n < 2 ^ 32 - 1) : s.CoversForward n :=
  (s.serves_pageAfter hn hsmall).covers hn ⟨none, rfl, rfl⟩

/-! ### Backward -/

theorem before_eq (c : κ) : s.before c = s.ahead false (some c) := (ascending_filter s.distinct _).symm

theorem inData_injective {k k' : κ} (h : s.db.column.inData k = s.db.column.inData k') : k = k' := by
  have htext : s.db.column.text k = s.db.column.text k' := by
    apply Option.some.inj
    rw [← s.db.column.cursorText_inData, ← s.db.column.cursorText_inData, h]
  have hcursor : s.db.column.cursor k = s.db.column.cursor k' := by
    apply Option.some.inj
    rw [← s.db.column.parseCursor_text, ← s.db.column.parseCursor_text, htext]
  apply Option.some.inj
  rw [← s.db.column.read_cursor, ← s.db.column.read_cursor, hcursor]

/-- Rows that look alike have the same key. -/
theorem key_eq_of_data {a b : Row κ} (ha : a ∈ s.rows) (hb : b ∈ s.rows) (h : a.data = b.data) :
    a.key = b.key := by
  have hexposed := s.exposes a (mem_filter.mp ha).1
  rw [h, s.exposes b (mem_filter.mp hb).1] at hexposed
  exact (s.inData_injective (Option.some.inj hexposed)).symm

/-- A page of the size of what is before a key shows all of it. -/
theorem coversBackward {c : κ} (hsmall : n < 2 ^ 32 - 1) (hfew : (s.before c).length ≤ n) : s.CoversBackward n c := by
  have hfetched : s.fetched false (some c) (size n) = s.before c := by
    rw [fetched_backward, size_of_lt hsmall, limit_of_lt hsmall, ← before_eq, Nat.sub_eq_zero_of_le (by omega),
      drop_zero]
  have hpage := s.pageBefore_eq (n := n) (by omega) (some c)
  rw [shown, hfetched, size_of_lt hsmall, take_of_length_le hfew, decide_eq_false (not_lt.mpr hfew)] at hpage
  constructor
  · refine ⟨_, hpage, ?_, ?_⟩
    · rw [Nat.sub_eq_zero_of_le hfew, drop_zero]
    · exact ⟨fun h => (nomatch h), fun h => absurd hfew (not_le.mpr h)⟩
  · refine ⟨[(s.before c).map data], .last hpage rfl, ?_⟩
    rw [reverse_singleton, flatten_singleton]

/-- With more rows before the key the page leaves out the nearest one. -/
theorem items_ne_of_lt {c : κ} (hn : 1 ≤ n) (hsmall : n < 2 ^ 32 - 1) (hmany : n < (s.before c).length) :
    (s.shown false (some c) (size n)).map data ≠
      ((s.before c).drop ((s.before c).length - n)).map data := by
  have hsucc : (s.before c).length - n = (s.before c).length - (n + 1) + 1 := by omega
  have hlength : ((s.before c).drop ((s.before c).length - (n + 1))).length = n + 1 := by
    rw [length_drop]
    omega
  have hinc : Increasing key ((s.before c).drop ((s.before c).length - (n + 1))) := by
    rw [before_eq]
    exact (s.increasing_ahead false (some c)).sublist (drop_sublist _ _)
  have hmem : ∀ row ∈ (s.before c).drop ((s.before c).length - (n + 1)), row ∈ s.rows := by
    intro row hrow
    have hbefore := mem_of_mem_drop hrow
    rw [before_eq] at hbefore
    exact s.mem_rows_of_ahead hbefore
  rw [shown, fetched_backward, size_of_lt hsmall, limit_of_lt hsmall, ← before_eq, hsucc, ← drop_drop]
  -- the fetched rows start with two different ones; the page starts with the first, what was asked with the second
  match hrows : (s.before c).drop ((s.before c).length - (n + 1)), hlength with
  | [], hlength => exact absurd hlength (by simp)
  | [_], hlength => exact absurd hlength (by simp; omega)
  | a :: b :: rest, _ =>
    rw [hrows] at hinc hmem
    obtain ⟨m, rfl⟩ := Nat.exists_eq_add_of_le' hn
    intro heq
    have hhead : a.data = b.data := (List.cons.inj heq).1
    have hkey := s.key_eq_of_data (hmem a (by simp)) (hmem b (by simp)) hhead
    exact absurd hkey ((pairwise_cons.mp hinc).1 b (by simp)).ne

/-! ### Exactly when -/

theorem ahead_nil (h : s.rows = []) (forward : Bool) (k : Option κ) : s.ahead forward k = [] := by
  apply eq_nil_iff_forall_not_mem.mpr
  intro row hrow
  have hmem := s.mem_rows_of_ahead hrow
  rw [h] at hmem
  exact not_mem_nil hmem

theorem fetched_nil_of_ahead {size : Nat} (h : s.ahead forward k = []) : s.fetched forward k size = [] := by
  apply eq_nil_iff_forall_not_mem.mpr
  intro row hrow
  have hmem := s.mem_ahead_of_fetched hrow
  rw [h] at hmem
  exact not_mem_nil hmem

theorem page_nil {size : Nat} (h : s.fetched forward k size = []) :
    s.shown forward k size = [] ∧ decide (size < (s.fetched forward k size).length) = false := by
  rw [shown, h]
  exact ⟨take_nil, decide_eq_false (Nat.not_lt_zero size)⟩

theorem covers_nil (hbound : n < 2 ^ 64) (h : s.rows = []) (c : κ) : s.CoversForward n ∧ s.CoversBackward n c := by
  have hfetched (forward : Bool) (k : Option κ) : s.fetched forward k (size n) = [] :=
    s.fetched_nil_of_ahead (s.ahead_nil h forward k)
  have hpage (forward : Bool) (k : Option κ) := s.page_nil (hfetched forward k)
  have hafter := s.pageAfter_eq hbound none
  have hbefore := s.pageBefore_eq hbound (some c)
  rw [(hpage true none).1, (hpage true none).2] at hafter
  rw [(hpage false (some c)).1, (hpage false (some c)).2] at hbefore
  have hnone : s.before c = [] := by
    rw [before_eq]
    exact s.ahead_nil h false (some c)
  rw [CoversForward, CoversBackward, hnone, h, ascending, mergeSort_nil]
  refine ⟨⟨[[]], .last hafter rfl, rfl⟩, ⟨_, hbefore, ?_, ?_⟩, [[]], .last hbefore rfl, rfl⟩
  · rw [drop_nil]
  · exact ⟨fun hmore => (nomatch hmore), fun hlt => absurd hlt (Nat.not_lt_zero n)⟩

end Connection

/-! ### Three users -/

def usersQuery : QueryDefinition where
  name := "users"
  returnType := "User"
  returnsList := true
  arguments := []
  sqlSource := some "v_user"
  autoParams := ⟨true, true, true, true⟩
  relay := true
  relayCursorColumn := some "pk_user"
  relayCursorType := .int64
  injectParams := []
  requiresRole := none
  nativeColumns := []

def user (n : Fin 4) : Row BigInt :=
  let key : BigInt := ⟨n.val, by omega, by omega⟩
  ⟨key, .obj [("pk_user", bigIntColumn.inData key)]⟩

def usersDatabase : Database BigInt where
  column := bigIntColumn
  rows _ _ := [user 1, user 2, user 3]
  admits _ _ := true
  compare _ _ _ := .eq

def usersConnection : Connection BigInt where
  x := { plainExecutor with
    relay := some usersDatabase.executeRelayPage
    base64 := ⟨Base64Codec.encode, Base64Codec.decode⟩ }
  m := bareMatch usersQuery
  ctx := none
  filter := none
  db := usersDatabase
  view := "v_user"
  cursorColumn := "pk_user"
  clause := none
  relay := rfl
  source := rfl
  column := rfl
  cursorType := rfl
  context := .inl rfl
  conditions := ⟨none, none, none, rfl, rfl, userWhere_none _ _, rfl⟩
  generates _ h := nomatch h
  decode_encode := Base64Codec.decode_encode
  distinct := by
    show Distinct Row.key [user 1, user 2, user 3]
    unfold Distinct
    decide
  exposes := by
    intro row hrow
    have hrow : row = user 1 ∨ row = user 2 ∨ row = user 3 := by simpa [usersDatabase] using hrow
    obtain rfl | rfl | rfl := hrow
    · rfl
    · rfl
    · rfl

theorem before_third : usersConnection.before (user 3).key = [user 1, user 2] := by
  have hsorted : ascending key usersConnection.rows = [user 1, user 2, user 3] := by
    apply ascending_eq
    · unfold Increasing
      decide
    · exact List.Perm.refl _
  rw [Connection.before, hsorted]
  rfl

end FraiseQL.RelayPagination
