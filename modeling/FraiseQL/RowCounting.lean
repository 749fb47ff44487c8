import FraiseQL.ExecutorSecurity
import FraiseQL.PageWindow

/-! Counting against fetching. Both runs read the rows that the row security clause and the filter of the client let
through; the count narrows them by the injected parameters, the fetch by the explicit arguments, and neither by the
other. The numbers agree when as many rows meet the one and not the other as the other way round. -/

namespace FraiseQL

open Outcome Traced ResultProjector List Except

/-! ### Rows in the database -/

/-- A row of a view: its document, and what the conditions of clauses are on it. -/
structure StoredRow where
  document : List (String × Json)
  conditions : WhereClause → Option Bool

/-- All of the clauses keep the row. -/
def StoredRow.meets (clauses : List WhereClause) (row : StoredRow) : Bool :=
  clauses.all fun clause => truth row.conditions clause = some true

/-- The rows of each view. -/
abbrev DatabaseState := String → List StoredRow

def DatabaseState.select (state : DatabaseState) (view : String) (clause : Option WhereClause) : List Json :=
  ((state view).filter (StoredRow.meets clause.toList)).map fun row => .obj row.document

/-- Reads of whole documents that succeed give the selected ones, in some order. -/
structure Adapter.ReadsState (a : Adapter) (state : DatabaseState) : Prop where
  fetched : ∀ {request rows}, request.projection = none → request.limit = none → request.offset = none →
    a.executeWithProjection request = .ok rows → rows.Perm (state.select request.view request.whereClause)
  counted : ∀ {request rows}, a.executeWhereQuery request = .ok rows →
    rows.Perm (state.select request.view request.whereClause)

namespace StoredRow

variable {row : StoredRow}

theorem meets_iff {clauses : List WhereClause} :
    row.meets clauses = true ↔ ∀ c ∈ clauses, truth row.conditions c = some true := by
  simp [meets]

theorem meets_toList {clause : Option WhereClause} : row.meets clause.toList = true ↔ Admits row.conditions clause := by
  cases clause with
  | none => simp [meets, admits_none]
  | some c => simp [meets, admits_some]

theorem meets_append (clauses clauses' : List WhereClause) :
    row.meets (clauses ++ clauses') = (row.meets clauses && row.meets clauses') := all_append

end StoredRow

theorem admits_combineExplicitArgWhere {v : WhereClause → Option Bool} {existing : Option WhereClause}
    {defined : List String} {provided : List (String × Json)} {natives : List (String × String)} :
    Admits v (combineExplicitArgWhere existing defined provided natives) ↔
      Admits v existing ∧ ∀ c ∈ explicitConditions defined provided natives, truth v c = some true := by
  unfold combineExplicitArgWhere
  dsimp only
  split_ifs with hnone
  · simp [isEmpty_iff.mp hnone]
  · rw [admits_conjunction, forall_mem_append]
    apply and_congr_left
    intro _
    cases existing with
    | none => simp [admits_none]
    | some c => simp [admits_some]

theorem countP_split {α : Type} (p q : α → Bool) (as : List α) :
    as.countP p = as.countP (fun a => p a && q a) + as.countP fun a => p a && !q a := by
  induction as with
  | nil => rfl
  | cons a as ih =>
    simp only [countP_cons, ih]
    cases p a <;> cases q a <;> simp <;> omega

/-- Two predicates hold equally often when each holds without the other equally often. -/
theorem countP_eq_iff {α : Type} (p q : α → Bool) (as : List α) :
    as.countP p = as.countP q ↔ as.countP (fun a => p a && !q a) = as.countP fun a => q a && !p a := by
  have hcomm : as.countP (fun a => q a && p a) = as.countP fun a => p a && q a :=
    congrArg (as.countP ·) (funext fun a => Bool.and_comm (q a) (p a))
  rw [countP_split p q, countP_split q p, hcomm]
  omega

/-! ### The match without a page -/

theorem lookup_filter_key {α : Type} (keeps : String → Bool) (entries : List (String × α)) (name : String) :
    (entries.filter fun entry => keeps entry.1).lookup name = if keeps name then entries.lookup name else none := by
  induction entries with
  | nil => simp
  | cons entry entries ih =>
    obtain ⟨key, value⟩ := entry
    by_cases hkey : name = key
    · subst hkey
      cases hkeeps : keeps name with
      | false => simp [hkeeps, ih]
      | true => simp [hkeeps]
    · have hne : (name == key) = false := beq_eq_false_iff_ne.mpr hkey
      cases hkeeps : keeps key with
      | false => simp [hkeeps, ih, lookup_cons, hne]
      | true => simp [hkeeps, ih, lookup_cons, hne]

namespace QueryMatch

variable (m : QueryMatch)

/-- The match without limit and offset. -/
def withoutPage : QueryMatch :=
  { m with
    arguments := m.arguments.filter fun argument => decide (argument.1 ∉ ["limit", "offset"])
    sorted := m.sorted.filter _ }

theorem lookup_withoutPage (name : String) : m.withoutPage.arguments.lookup name =
    if decide (name ∉ ["limit", "offset"]) then m.arguments.lookup name else none :=
  lookup_filter_key (fun name => decide (name ∉ ["limit", "offset"])) m.arguments name

/-- Limits and offsets are no explicit arguments. -/
theorem explicitConditions_withoutPage (defined : List String) (natives : List (String × String)) :
    explicitConditions defined m.withoutPage.arguments natives = explicitConditions defined m.arguments natives := by
  unfold explicitConditions
  apply filterMap_congr
  intro name hname
  have hexplicit : name ∉ ["limit", "offset"] := by
    intro hpage
    have hauto : name ∈ autoParamNames := by
      simp only [mem_cons, not_mem_nil, or_false] at hpage
      rcases hpage with rfl | rfl <;> decide
    simp [hauto] at hname
  rw [lookup_withoutPage, if_pos (decide_eq_true hexplicit)]

end QueryMatch

/-! ### The two numbers -/

/-- The rows in the response of a query. -/
def rowsReturned (queryName : String) (response : Json) : Nat :=
  match (response.get? "data").bind (Json.get? queryName) with
  | some (.arr items) => items.length
  | some .null | none => 0
  | some _ => 1

namespace Executor

variable (x : Executor) (m : QueryMatch) (ctx : Option SecurityContext)

/-- Row security and the filter of the client, which both runs apply. -/
def sharedConditions : List WhereClause :=
  (evaluateRls x.rlsPolicy ctx m.queryDef.name).toOption.join.toList ++
    (userWhere x.charCase m.queryDef (m.arguments.lookup "where")).toOption.join.toList

/-- The conditions of injected parameters, which the count applies. -/
def injectedConditions : List WhereClause := (droppedConditions m.queryDef ctx).toOption.getD []

/-- The conditions of explicit arguments, which the fetch applies. -/
def argumentConditions : List WhereClause :=
  explicitConditions m.queryDef.arguments m.arguments m.queryDef.nativeColumns

/-- The rows that both runs narrow further. -/
def sharedRows (state : DatabaseState) : List StoredRow :=
  (state (m.queryDef.sqlSource.getD "")).filter (StoredRow.meets (x.sharedConditions m ctx))

/-- As many of the rows that row security and the filter let through meet the injected conditions and miss those of
the arguments as the other way round. A query for one row counts one row at most, and one when it finds one. -/
def CountsAlike (state : DatabaseState) : Prop :=
  let injected := StoredRow.meets (injectedConditions m ctx)
  let explicit := StoredRow.meets (argumentConditions m)
  let rows := x.sharedRows m ctx state
  if m.queryDef.returnsList then
    rows.countP (fun row => injected row && !explicit row) = rows.countP fun row => explicit row && !injected row
  else rows.countP injected ≤ 1 ∧ ((∃ row ∈ rows, injected row = true) ↔ ∃ row ∈ rows, explicit row = true)

section Numbers

variable {x : Executor} {m : QueryMatch} {ctx : Option SecurityContext} {state : DatabaseState}

theorem length_select {view : String} {clause : Option WhereClause} {narrowing : List WhereClause}
    (hview : m.queryDef.sqlSource = some view)
    (hclause : ∀ v, Admits v clause ↔ ∀ c ∈ x.sharedConditions m ctx ++ narrowing, truth v c = some true) :
    (state.select view clause).length = (x.sharedRows m ctx state).countP (StoredRow.meets narrowing) := by
  have hmeets : StoredRow.meets clause.toList =
      fun row => StoredRow.meets narrowing row && StoredRow.meets (x.sharedConditions m ctx) row := by
    funext row
    rw [Bool.and_comm, ← StoredRow.meets_append, Bool.eq_iff_iff, StoredRow.meets_toList, hclause,
      StoredRow.meets_iff]
  rw [DatabaseState.select, length_map, hmeets, sharedRows, hview, Option.getD_some, countP_filter,
    countP_eq_length_filter]

theorem select_obj {view : String} {clause : Option WhereClause} {row : Json} (hrow : row ∈ state.select view clause) :
    ∃ document, row = .obj document := by
  obtain ⟨stored, -, rfl⟩ := mem_map.mp hrow
  exact ⟨stored.document, rfl⟩

/-- A response has an item for each row of a list, and null without rows otherwise. -/
theorem rowsReturned_publicResponse {rows : List Json} (hrows : ∀ row ∈ rows, ∃ document, row = .obj document) :
    rowsReturned m.queryDef.name (x.publicResponse m.withoutPage rows) =
      if m.queryDef.returnsList then rows.length else min 1 rows.length := by
  unfold rowsReturned publicResponse wrapInDataEnvelope
  have hname : m.withoutPage.queryDef = m.queryDef := rfl
  rw [hname]
  have hdata : ∀ value, (Json.get? "data" (.obj [("data", .obj [(m.queryDef.name, value)])])).bind
      (Json.get? m.queryDef.name) = some value := by
    intro value
    simp [Json.get?, Json.lookup]
  rw [hdata]
  unfold projectResults
  split_ifs with hlist
  · simp
  · cases rows with
    | nil => simp
    | cons row rows =>
      obtain ⟨document, rfl⟩ := hrows row mem_cons_self
      simp [project, projectJsonObject]

theorem admits_shared {rls user : Option WhereClause} (hrls : evaluateRls x.rlsPolicy ctx m.queryDef.name = .ok rls)
    (huser : userWhere x.charCase m.queryDef (m.arguments.lookup "where") = .ok user) {v : WhereClause → Option Bool} :
    (∀ c ∈ x.sharedConditions m ctx, truth v c = some true) ↔ Admits v rls ∧ Admits v user := by
  have hshared : x.sharedConditions m ctx = rls.toList ++ user.toList := by
    rw [sharedConditions, hrls, huser]
    rfl
  rw [hshared, forall_mem_append]
  simp [Admits]

/-- The conditions of the count beside the filter of the client. -/
theorem admits_securityWhere {rls secured : Option WhereClause} {missing : FraiseQLError}
    (hsecured : securityWhere m.queryDef rls ctx missing = .ok secured) {v : WhereClause → Option Bool} :
    Admits v secured ↔ Admits v rls ∧ ∀ c ∈ injectedConditions m ctx, truth v c = some true := by
  unfold securityWhere at hsecured
  split_ifs at hsecured with hnone
  · obtain rfl := Except.ok.inj hsecured
    have hinjected : injectedConditions m ctx = [] := by
      rw [injectedConditions]
      cases ctx <;> simp [droppedConditions, isEmpty_iff.mp hnone, injectConditions, Except.toOption]
    simp [hinjected]
  · obtain ⟨user, huser, hinjected⟩ := bind_eq_ok.mp hsecured
    obtain rfl := okOr_eq_ok.mp huser
    rw [injectedWhere, if_neg hnone] at hinjected
    obtain ⟨conditions, hconditions, hpure⟩ := bind_eq_ok.mp hinjected
    obtain rfl := pure_eq_ok.mp hpure
    have heq : injectedConditions m (some user) = conditions := by
      rw [injectedConditions, droppedConditions, hconditions]
      rfl
    rw [heq, admits_conjunction, forall_mem_append]
    simp [Admits]

/-- The count is of the shared rows that meet the injected conditions. -/
theorem count_eq (hstate : x.adapter.ReadsState state) {n : Nat} (hcount : (x.countRows m ctx).outcome = .ok n) :
    n = (x.sharedRows m ctx state).countP (StoredRow.meets (injectedConditions m ctx)) := by
  simp only [countRows, outcome_bind, outcome_lift, outcome_call, outcome_pure,
    bind_eq_ok] at hcount
  obtain ⟨request, hrequest, rows, hrows, hn⟩ := hcount
  simp only [countRequest, bind_eq_ok, pure_eq_ok, okOr_eq_ok] at hrequest
  obtain ⟨rls, hrls, view, hview, secured, hsecured, user, huser, rfl⟩ := hrequest
  rw [← ok.inj hn, (hstate.counted hrows).length_eq]
  apply length_select hview
  intro v
  rw [admits_composeWhere, admits_securityWhere hsecured, forall_mem_append, admits_shared hrls huser]
  tauto

/-- The fetch returns the shared rows that meet the conditions of the arguments. -/
theorem fetch_eq (hstate : x.adapter.ReadsState state) {response : Json}
    (hfetch : (x.executeQueryDirect m.withoutPage ctx).outcome = .ok response) :
    rowsReturned m.queryDef.name response =
      if m.queryDef.returnsList then (x.sharedRows m ctx state).countP (StoredRow.meets (argumentConditions m))
      else min 1 ((x.sharedRows m ctx state).countP (StoredRow.meets (argumentConditions m))) := by
  simp only [executeQueryDirect, executeWithProjection, outcome_bind, outcome_lift, outcome_call,
    outcome_pure, bind_eq_ok] at hfetch
  obtain ⟨request, hrequest, rows, hrows, hresponse⟩ := hfetch
  simp only [directRequest, bind_eq_ok, pure_eq_ok, okOr_eq_ok] at hrequest
  obtain ⟨rls, hrls, view, hview, user, huser, order, -, -, -, rfl⟩ := hrequest
  have hpage : ∀ name, name ∈ ["limit", "offset"] → pageArg (m.withoutPage.arguments.lookup name) = none := by
    intro name hname
    rw [QueryMatch.lookup_withoutPage, if_neg (by simp only [hname, not_true, decide_false, Bool.false_eq_true, not_false_iff])]
    rfl
  have hperm := hstate.fetched rfl (hpage "limit" (by decide)) (hpage "offset" (by decide)) hrows
  rw [QueryMatch.lookup_withoutPage, if_pos (by decide)] at huser
  have hsame : m.withoutPage.queryDef = m.queryDef := rfl
  rw [hsame] at hrls hview huser hperm
  have hlength : rows.length = (x.sharedRows m ctx state).countP (StoredRow.meets (argumentConditions m)) := by
    rw [hperm.length_eq]
    apply length_select hview
    intro v
    rw [admits_composeWhere, admits_combineExplicitArgWhere, m.explicitConditions_withoutPage, forall_mem_append,
      admits_shared hrls huser, and_assoc]
    rfl
  rw [← hlength, ← ok.inj hresponse]
  exact rowsReturned_publicResponse fun row hrow => select_obj (hperm.mem_iff.mp hrow)

end Numbers

/-- Counting gives the number of rows that fetching without a page returns exactly when the two narrowings weigh the
same. -/
theorem count_agrees_iff {x : Executor} {m : QueryMatch} {ctx : Option SecurityContext} {state : DatabaseState}
    {n : Nat} {response : Json} (hstate : x.adapter.ReadsState state) (hcount : (x.countRows m ctx).outcome = .ok n)
    (hfetch : (x.executeQueryDirect m.withoutPage ctx).outcome = .ok response) :
    n = rowsReturned m.queryDef.name response ↔ x.CountsAlike m ctx state := by
  rw [count_eq hstate hcount, fetch_eq hstate hfetch, CountsAlike]
  split_ifs with hlist
  · exact countP_eq_iff _ _ _
  · rw [← countP_pos_iff, ← countP_pos_iff]
    omega

/-- Lists without injected parameters and explicit arguments are counted as they are fetched. -/
theorem countsAlike_of_unnarrowed (hlist : m.queryDef.returnsList = true) (hinjected : injectedConditions m ctx = [])
    (harguments : argumentConditions m = []) (state : DatabaseState) : x.CountsAlike m ctx state := by
  rw [CountsAlike, if_pos hlist, hinjected, harguments]

end Executor

/-! ### Two users -/

/-- An executor on a database in the given state. -/
def stateExecutor (state : DatabaseState) : Executor := { plainExecutor with
  adapter := ⟨.postgresql, fun _ => .ok (),
    fun request => .ok (PageWindow.window request.limit (request.offset.getD 0)
      (state.select request.view request.whereClause)),
    fun request => .ok (state.select request.view request.whereClause)⟩ }

theorem stateExecutor_readsState (state : DatabaseState) : (stateExecutor state).adapter.ReadsState state where
  fetched := by
    rintro ⟨view, projection, clause, limit, offset, orderBy⟩ rows - rfl rfl hrows
    rw [← ok.inj hrows, Option.getD_none, PageWindow.window_none_zero]
  counted := by
    intro request rows hrows
    rw [← ok.inj hrows]

def storedUser (status : String) : StoredRow :=
  ⟨[("status", .str status)], fun
    | .field ["status"] .eq (.str wanted) => some (wanted = status)
    | _ => none⟩

def twoUserState : DatabaseState := fun view =>
  if view = "v_user" then [storedUser "active", storedUser "inactive"] else []

/-- `users`, with an argument for the status. -/
def statusMatch (arguments : List (String × Json)) (sorted : arguments.Pairwise fun a b => a.1 < b.1) : QueryMatch where
  queryDef := ⟨"users", "User", true, ["status"], some "v_user", ⟨false, false, false, false⟩, false, none, .int64, [],
    none, []⟩
  selections := [.mk "users" none [] [.mk "status" none [] []]]
  arguments := arguments
  sorted := sorted

/-- All users are counted and fetched. -/
theorem users_counted_and_fetched : ∃ n response,
    ((stateExecutor twoUserState).countRows (statusMatch [] .nil) none).outcome = .ok n ∧
      ((stateExecutor twoUserState).executeQueryDirect (statusMatch [] .nil).withoutPage none).outcome = .ok response ∧
      n = rowsReturned "users" response :=
  ⟨_, _, rfl, rfl, (Executor.count_agrees_iff (m := statusMatch [] .nil) (stateExecutor_readsState twoUserState) rfl
    rfl).mpr (Executor.countsAlike_of_unnarrowed _ _ none rfl rfl rfl _)⟩

/-- The active users are one, and two are counted. -/
theorem status_not_counted :
    ¬∀ (x : Executor) (m : QueryMatch) (ctx : Option SecurityContext) (state : DatabaseState) (n : Nat) (response : Json),
      x.adapter.ReadsState state → (x.countRows m ctx).outcome = .ok n →
      (x.executeQueryDirect m.withoutPage ctx).outcome = .ok response → n = rowsReturned m.queryDef.name response := by
  intro hall
  have hsame := hall (stateExecutor twoUserState) (statusMatch [("status", .str "active")] (pairwise_singleton _ _))
    none twoUserState 2 _ (stateExecutor_readsState twoUserState) rfl rfl
  revert hsame
  decide

end FraiseQL
