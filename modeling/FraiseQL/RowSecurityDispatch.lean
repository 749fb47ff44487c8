import FraiseQL.Base64Codec
import FraiseQL.ExecutorDispatch
import FraiseQL.ExecutorSecurity
import Mathlib.Data.Set.Finite.Basic
import Mathlib.Data.Set.Finite.Range

/-! Row security of the special roots under `execute_with_security`. Their handlers take no user, so a node query
reads with nothing but its identifier in the clause, and an aggregate or a window query reads whatever table the
client names. The reads are secured exactly when the user may see all of what can be read. -/

namespace FraiseQL

open Graphql Outcome Traced List Option String

/-! ### Conditions of a clause -/

mutual

/-- The conditions that a clause is made of. -/
def conditionsOf : WhereClause → List WhereClause
  | .and clauses => conditionsOfAll clauses
  | .or clauses => conditionsOfAll clauses
  | .not clause => conditionsOf clause
  | condition => [condition]

def conditionsOfAll : List WhereClause → List WhereClause
  | [] => []
  | clause :: clauses => conditionsOf clause ++ conditionsOfAll clauses

end

section Truth

variable {v w : WhereClause → Option Bool}

mutual

/-- Truth is decided by the conditions. -/
theorem truth_congr : ∀ {clause : WhereClause}, (∀ c ∈ conditionsOf clause, v c = w c) →
    truth v clause = truth w clause
  | .and clauses, h => by
    rw [truth, truth]
    exact truthAll_congr h
  | .or clauses, h => by
    rw [truth, truth]
    exact truthAny_congr h
  | .not clause, h => by
    rw [truth, truth]
    exact congrArg (Option.map not) (truth_congr h)
  | .field path operator value, h => h _ (mem_singleton_self _)
  | .nativeField column pgCast operator value, h => h _ (mem_singleton_self _)

theorem truthAll_congr : ∀ {clauses : List WhereClause}, (∀ c ∈ conditionsOfAll clauses, v c = w c) →
    truthAll v clauses = truthAll w clauses
  | [], _ => rfl
  | clause :: clauses, h => by
    rw [truthAll, truthAll, truth_congr fun c hc => h c (mem_append_left _ hc),
      truthAll_congr fun c hc => h c (mem_append_right _ hc)]

theorem truthAny_congr : ∀ {clauses : List WhereClause}, (∀ c ∈ conditionsOfAll clauses, v c = w c) →
    truthAny v clauses = truthAny w clauses
  | [], _ => rfl
  | clause :: clauses, h => by
    rw [truthAny, truthAny, truth_congr fun c hc => h c (mem_append_left _ hc),
      truthAny_congr fun c hc => h c (mem_append_right _ hc)]

end

end Truth

/-- The condition of a node query. -/
def nodeCondition (uuid : String) : WhereClause := .field ["id"] .eq (.str uuid)

theorem nodeCondition_injective : Function.Injective nodeCondition := by
  intro a b h
  injection h with _ _ hvalue
  injection hvalue

/-- Some identifier occurs in none of finitely many conditions. -/
theorem exists_fresh (conditions : List WhereClause) : ∃ uuid, uuid ≠ "" ∧ nodeCondition uuid ∉ conditions := by
  let name (n : Nat) : String := ofList (replicate (n + 1) 'a')
  have hname : Function.Injective name := by
    intro a b h
    have hlength := congrArg (fun s : String => s.toList.length) h
    simpa [name] using hlength
  have hinfinite := Set.infinite_range_of_injective (nodeCondition_injective.comp hname)
  obtain ⟨condition, ⟨n, rfl⟩, hfresh⟩ := hinfinite.exists_notMem_finite (finite_toSet conditions)
  refine ⟨name n, ?_, hfresh⟩
  intro hempty
  have hlength := congrArg (fun s : String => s.toList.length) hempty
  simp [name] at hlength

/-! ### What a user may see -/

/-- The clause keeps what row security keeps: the policy does not deny access, and its clause and the injected
conditions follow. -/
structure Permits (x : Executor) (user : SecurityContext) (d : QueryDefinition)
    (whereClause : Option WhereClause) : Prop where
  evaluates : ∃ rls, evaluateRls x.rlsPolicy (some user) d.name = .ok rls
  secured : Secured x d (some user) whereClause

/-- The user may see every row of the query. -/
structure Unrestricted (x : Executor) (user : SecurityContext) (d : QueryDefinition) : Prop where
  rls : ∃ rls, evaluateRls x.rlsPolicy (some user) d.name = .ok rls ∧ ∀ v, Admits v rls
  inject : d.injectParams = []

section Permits

variable {x : Executor} {user : SecurityContext} {d : QueryDefinition} {whereClause : Option WhereClause}

/-- Then any read is permitted. -/
theorem Unrestricted.permits (h : Unrestricted x user d) : Permits x user d whereClause := by
  obtain ⟨rls, hrls, hadmits⟩ := h.rls
  refine ⟨⟨rls, hrls⟩, ?_⟩
  exact (secured_of_rls hrls h.inject).narrow fun v _ => hadmits v

variable {clause : WhereClause}

theorem evaluateRls_some {name : String} (h : evaluateRls x.rlsPolicy (some user) name = .ok (some clause)) :
    ∃ policy, x.rlsPolicy = some policy ∧ policy user name = .ok (some clause) := by
  unfold evaluateRls at h
  cases hpolicy : x.rlsPolicy with
  | none =>
    rw [hpolicy] at h
    cases h
  | some policy =>
    rw [hpolicy] at h
    exact ⟨policy, rfl, h⟩

/-- The clause of the policy follows from a permitted read. -/
theorem Permits.entails (h : Permits x user d whereClause)
    (hrls : evaluateRls x.rlsPolicy (some user) d.name = .ok (some clause)) : Entails whereClause clause := by
  obtain ⟨policy, hpolicy, hclause⟩ := evaluateRls_some hrls
  exact h.secured.rls policy user clause hpolicy rfl hclause

/-- Reads without a clause are permitted only when nothing is restricted. -/
theorem unrestricted_of_permits_none (h : Permits x user d none) : Unrestricted x user d := by
  obtain ⟨rls, hrls⟩ := h.evaluates
  constructor
  · refine ⟨rls, hrls, ?_⟩
    intro v clause hclause
    rw [hclause] at hrls
    exact h.entails hrls v admits_none
  · by_contra hinject
    obtain ⟨param, hparam⟩ := exists_mem_of_ne_nil _ hinject
    obtain ⟨_, _, _, _, _, hequates, hentails⟩ := h.secured.inject param hparam
    exact not_entails_none hequates hentails

open Classical in
/-- A clause that follows from a condition it is not made of is always true. -/
theorem truth_of_entails_fresh {condition clause : WhereClause} (hfresh : condition ∉ conditionsOf clause)
    (hcondition : ∀ v, truth v condition = v condition) (h : Entails (some condition) clause)
    (v : WhereClause → Option Bool) : truth v clause = some true := by
  let w : WhereClause → Option Bool := fun c => if c = condition then some true else v c
  have hw : truth w clause = some true := by
    apply h w
    rw [admits_some, hcondition]
    exact if_pos rfl
  rw [← hw]
  apply truth_congr
  intro c hc
  have hne : c ≠ condition := by
    rintro rfl
    exact hfresh hc
  exact (if_neg hne).symm

theorem Equates.conditionsOf_eq {column : String} {value : Json}
    (h : Equates column value clause) : conditionsOf clause = [clause] := by
  rcases h with rfl | ⟨_, rfl⟩ <;> rfl

/-- Reads of single rows are permitted for every identifier only when nothing is restricted. -/
theorem unrestricted_of_permits_nodes
    (h : ∀ uuid, uuid ≠ "" → Permits x user d (some (nodeCondition uuid))) : Unrestricted x user d := by
  obtain ⟨rls, hrls⟩ := (h "a" (by decide)).evaluates
  constructor
  · refine ⟨rls, hrls, ?_⟩
    intro v clause hclause
    rw [hclause] at hrls
    obtain ⟨uuid, hne, hfresh⟩ := exists_fresh (conditionsOf clause)
    exact truth_of_entails_fresh hfresh (fun _ => rfl) ((h uuid hne).entails hrls) v
  · by_contra hinject
    obtain ⟨param, hparam⟩ := exists_mem_of_ne_nil _ hinject
    obtain ⟨_, value, _, hctx, hvalue, _⟩ := (h "a" (by decide)).secured.inject param hparam
    cases hctx
    -- the value of the parameter is the same for every identifier, so some identifier is another one
    obtain ⟨uuid, hne, hfresh⟩ := exists_fresh [.field [param.1] .eq value]
    obtain ⟨_, value', clause, hctx, hvalue', hequates, hentails⟩ := (h uuid hne).secured.inject param hparam
    cases hctx
    obtain rfl : value = value' := Except.ok.inj (hvalue.symm.trans hvalue')
    have hother : nodeCondition uuid ∉ conditionsOf clause := by
      rw [hequates.conditionsOf_eq, mem_singleton]
      rintro rfl
      rcases hequates with hsame | ⟨_, hnative⟩
      · exact hfresh (mem_singleton.mpr hsame)
      · cases hnative
    have hnone := truth_of_entails_fresh hother (fun _ => rfl) hentails fun _ => none
    rcases hequates with rfl | ⟨_, rfl⟩ <;> cases hnone

end Permits

/-! ### The special roots -/

/-- The relation and the clause of a read. -/
def DispatchCall.reads : DispatchCall → Option (String × Option WhereClause)
  | .read (.executeWithProjection request) => some (request.view, request.whereClause)
  | .read (.executeWhereQuery request) => some (request.view, request.whereClause)
  | .read (.executeRelayPage request) => some (request.view, request.whereClause)
  | .read (.setSessionVariables _) | .read (.putResponse _ _ _) => none
  | .aggregate plan _ => some (plan.request.tableName, plan.request.whereClause)
  | .window plan _ => some (plan.table, plan.whereClause)
  | .callFunction _ _ => none

namespace Dispatcher

/-- Whatever a run reads of a relation behind query definitions, it reads as they permit. -/
def ReadsPermitted (x : Dispatcher) (user : SecurityContext) (calls : List DispatchCall) : Prop :=
  ∀ call ∈ calls, ∀ view whereClause, call.reads = some (view, whereClause) →
    ∀ d ∈ x.base.schema.queries, d.sqlSource = some view → Permits x.base user d whereClause

/-- No way around row security: the reads are permitted whatever the variables are. -/
def NoSideDoor (x : Dispatcher) (query : String) (user : SecurityContext) : Prop :=
  ∀ vars, x.ReadsPermitted user (x.executeWithSecurity query vars user).calls

/-- The user may see every row behind the query definitions. -/
def AllUnrestricted (x : Dispatcher) (user : SecurityContext) : Prop :=
  ∀ d ∈ x.base.schema.queries, d.sqlSource ≠ none → Unrestricted x.base user d

/-- The user may see every row of the relations that node queries read. A type name is what stands before the
first colon of an identifier. -/
def NodesUnrestricted (x : Dispatcher) (user : SecurityContext) : Prop :=
  ∀ typeName view, typeName ≠ "" → ':' ∉ typeName.toList → x.nodeTypeIndex typeName = some view →
    ∀ d ∈ x.base.schema.queries, d.sqlSource = some view → Unrestricted x.base user d

/-- When a special root is no way around row security. -/
def NothingBehind (x : Dispatcher) (user : SecurityContext) : QueryType → Prop
  | .aggregate queryName => (x.factTable "aggregate" queryName).isOk → x.AllUnrestricted user
  | .window queryName => (x.factTable "window" queryName).isOk → x.AllUnrestricted user
  | .nodeQuery _ => x.NodesUnrestricted user
  | _ => True

end Dispatcher

def QueryType.readsWithoutUser : QueryType → Bool
  | .aggregate _ | .window _ | .nodeQuery _ => true
  | _ => false

namespace Dispatcher

section Reads

variable {x : Dispatcher} {user : SecurityContext} {queryName : String} {vars : Option Json} {c : DispatchCall}

theorem readsPermitted_of_allUnrestricted {calls : List DispatchCall} (h : x.AllUnrestricted user) :
    x.ReadsPermitted user calls := by
  intro call _ view whereClause _ d hd hsource
  have hne : d.sqlSource ≠ none := by
    rw [hsource]
    exact some_ne_none view
  exact (h d hd hne).permits

/-- Where every relation is read without a clause, nothing may be restricted. -/
theorem allUnrestricted_of_reads (h : ∀ view, ∃ calls, x.ReadsPermitted user calls ∧
    ∃ call ∈ calls, call.reads = some (view, none)) : x.AllUnrestricted user := by
  intro d hd hne
  obtain ⟨view, hsource⟩ := ne_none_iff_exists'.mp hne
  obtain ⟨calls, hpermitted, call, hcall, hreads⟩ := h view
  exact unrestricted_of_permits_none (hpermitted call hcall view none hreads d hd hsource)

theorem calls_executeWithSecurity {query : String} {kind : QueryType} (hkind : x.classifyQuery query = .ok kind)
    (hspecial : kind.readsWithoutUser = true) (vars : Option Json) :
    (x.executeWithSecurity query vars user).calls =
      (x.route query vars (.lift (.error noSqlSource)) (fun _ _ => .lift (.error noSqlSource)) kind).calls := by
  unfold executeWithSecurity
  show (andThen (lift (x.classifyQuery query)) _).calls = _
  rw [hkind]
  cases kind with
  | aggregate queryName => rfl
  | window queryName => rfl
  | nodeQuery selections => rfl
  | regular => cases hspecial
  | federation queryName => cases hspecial
  | introspectionSchema => cases hspecial
  | introspectionType typeName => cases hspecial
  | mutation name typeSelections => cases hspecial

/-- A count of any relation. -/
def countOf (view : String) : Json :=
  .obj [("table", .str view), ("aggregates", .arr [.obj [("count", .obj [])]])]

/-- The rows of any relation, numbered. -/
def numberedRowsOf (view : String) : Json :=
  .obj [("table", .str view), ("windows", .arr [.obj [("function", .obj [("type", .str "row_number")]),
    ("alias", .str "n")]])]

/-- An aggregate query reads any relation, without a clause. -/
theorem aggregate_reads (h : (x.factTable "aggregate" queryName).isOk = true) (view : String) :
    ∃ call ∈ (x.executeAggregateDispatch queryName (some (countOf view))).calls, call.reads = some (view, none) := by
  obtain ⟨metadata, hmetadata⟩ := isOk_iff.mp h
  let request : Aggregate.Request := ⟨view, none, [], [.count "count"], [], [], none, none⟩
  have hrequest : Aggregate.QueryParser.parse x.text metadata
      (filterColumnsToNativeMap metadata.denormalizedFilters) (countOf view) = .ok request := rfl
  let plan : Aggregate.Plan := ⟨metadata, request, [], [.count "count"], []⟩
  have hplan : Aggregate.Planner.plan metadata request = .ok plan := rfl
  obtain ⟨statement, hstatement⟩ : ∃ statement, Aggregate.SqlGenerator.generateParameterized
      x.base.adapter.databaseType x.text plan = .ok statement := ⟨_, rfl⟩
  refine ⟨.aggregate plan statement, ?_, rfl⟩
  simp only [executeAggregateDispatch, executeAggregateQuery, mem_calls_bind, outcome_lift,
    getD_some]
  refine .inr ⟨metadata, hmetadata, .inr ⟨request, hrequest, .inr ⟨plan, hplan, .inr ⟨statement, hstatement,
    .inl ?_⟩⟩⟩⟩
  exact mem_singleton_self _

/-- A window query reads any relation, without a clause. -/
theorem window_reads (h : (x.factTable "window" queryName).isOk = true) (view : String) :
    ∃ call ∈ (x.executeWindowDispatch queryName (some (numberedRowsOf view))).calls,
      call.reads = some (view, none) := by
  obtain ⟨metadata, hmetadata⟩ := isOk_iff.mp h
  let request : Window.Request := ⟨view, [], [⟨.rowNumber, "n", [], [], none⟩], none, [], none, none⟩
  have hrequest : Window.QueryParser.parse (numberedRowsOf view) = .ok request := rfl
  let plan : Window.ExecutionPlan := ⟨view, [], [⟨.rowNumber, "n", [], [], none⟩], none, [], none, none⟩
  have hplan : Window.Planner.plan metadata request = .ok plan := rfl
  obtain ⟨statement, hstatement⟩ : ∃ statement, Window.SqlGenerator.generate
      x.base.adapter.databaseType plan = .ok statement := ⟨_, rfl⟩
  refine ⟨.window plan statement, ?_, rfl⟩
  simp only [executeWindowDispatch, executeWindowQuery, mem_calls_bind, outcome_lift,
    getD_some]
  refine .inr ⟨metadata, hmetadata, .inr ⟨request, hrequest, .inr ⟨plan, hplan, .inr ⟨statement, hstatement,
    .inl ?_⟩⟩⟩⟩
  exact mem_singleton_self _

/-- Without its fact table an analytic query calls nothing. -/
theorem calls_of_factTable_error {kind : String} {run : FactTableMetadata → Dispatched Json}
    (h : (x.factTable kind queryName).isOk ≠ true) :
    (lift (x.factTable kind queryName) >>= run).calls = [] := by
  apply eq_nil_iff_forall_not_mem.mpr
  intro call hcall
  obtain hcall | ⟨metadata, hmetadata, _⟩ := mem_calls_bind.mp hcall
  · cases hcall
  · exact h (isOk_iff.mpr ⟨metadata, hmetadata⟩)

end Reads

/-! ### Node queries -/

section Nodes

variable {x : Dispatcher} {user : SecurityContext} {query : String} {vars : Option Json}
  {selections : List ParsedSelection}

theorem splitOnce_append {typeName : String} (hcolon : ':' ∉ typeName.toList) (uuid : String) :
    splitOnce (typeName ++ ":" ++ uuid) = some (typeName, uuid) := by
  have htext : (typeName ++ ":" ++ uuid).toList = typeName.toList ++ ':' :: uuid.toList := by
    rw [toList_append, toList_append]
    simp
  have hbefore : ∀ c ∈ typeName.toList, (decide (c ≠ ':')) = true := by
    intro c hc
    apply decide_eq_true
    rintro rfl
    exact hcolon hc
  unfold splitOnce
  rw [htext, if_pos (by simp), takeWhile_append_of_pos hbefore, dropWhile_append_of_pos hbefore]
  simp

theorem splitOnce_eq_some {s : String} {parts : String × String} (h : splitOnce s = some parts) :
    ':' ∉ parts.1.toList := by
  unfold splitOnce at h
  split_ifs at h
  obtain rfl := some.inj h
  rw [toList_ofList]
  intro hmem
  simpa using all_eq_true.mp all_takeWhile ':' hmem

theorem decodeNodeId_eq_some {base64 : Base64} {id : String} {parts : String × String}
    (h : decodeNodeId base64 id = some parts) : parts.1 ≠ "" ∧ ':' ∉ parts.1.toList := by
  unfold decodeNodeId at h
  obtain ⟨parts', hsplit, hparts⟩ := bind_eq_some_iff.mp h
  obtain ⟨text, _, htext⟩ := bind_eq_some_iff.mp hsplit
  split_ifs at hparts with hempty
  obtain rfl := some.inj hparts
  refine ⟨?_, splitOnce_eq_some htext⟩
  intro hnil
  apply hempty
  rw [hnil]
  exact .inl rfl

/-- Identifiers are decoded to the type name and the identifier they were made of. -/
theorem decodeNodeId_encode {base64 : Base64} (hbase64 : ∀ s, base64.decode (base64.encode s) = some s)
    {typeName uuid : String} (htype : typeName ≠ "") (hcolon : ':' ∉ typeName.toList) (huuid : uuid ≠ "") :
    decodeNodeId base64 (base64.encode (typeName ++ ":" ++ uuid)) = some (typeName, uuid) := by
  unfold decodeNodeId
  rw [hbase64, bind_some, splitOnce_append hcolon, bind_some]
  apply if_neg
  rintro (hempty | hempty)
  · exact htype (isEmpty_iff.mp hempty)
  · exact huuid (isEmpty_iff.mp hempty)

theorem mem_calls_executeNodeQuery {c : DispatchCall} : c ∈ (x.executeNodeQuery query vars selections).calls ↔
    ∃ request, x.nodeRequest query vars selections = .ok request ∧ c = .read (.executeWithProjection request) := by
  simp [executeNodeQuery, ofRead, Executor.executeWithProjection, eq_comm]

/-- A node query reads the relation of a type by an identifier. -/
theorem nodeRequest_reads {request : ProjectionRequest} (h : x.nodeRequest query vars selections = .ok request) :
    ∃ typeName, typeName ≠ "" ∧ ':' ∉ typeName.toList ∧ x.nodeTypeIndex typeName = some request.view := by
  simp only [nodeRequest, bind_eq_ok, okOr_eq_ok] at h
  obtain ⟨rawId, _, ⟨typeName, uuid⟩, hdecode, view, hview, hrequest⟩ := h
  obtain ⟨htype, hcolon⟩ := decodeNodeId_eq_some hdecode
  refine ⟨typeName, htype, hcolon, ?_⟩
  rw [hview, ← pure_eq_ok.mp hrequest]

/-- Every relation of the index is read by any identifier, given as a variable. -/
theorem nodeRequest_of_index (hbase64 : ∀ s, x.base.base64.decode (x.base.base64.encode s) = some s)
    {typeName view uuid : String} (htype : typeName ≠ "") (hcolon : ':' ∉ typeName.toList)
    (hview : x.nodeTypeIndex typeName = some view) (huuid : uuid ≠ "") :
    ∃ vars, x.nodeRequest query vars selections =
      .ok ⟨view, x.nodeHint typeName selections, some (nodeCondition uuid), some 1, none, none⟩ := by
  have hdecode := decodeNodeId_encode hbase64 htype hcolon huuid
  refine ⟨some (.obj [("id", .str (x.base.base64.encode (typeName ++ ":" ++ uuid)))]), ?_⟩
  simp only [nodeRequest, bind_eq_ok, okOr_eq_ok]
  exact ⟨_, rfl, _, hdecode, view, hview, rfl⟩

end Nodes

section Exact

variable {x : Dispatcher} {user : SecurityContext} {query queryName : String}

theorem allUnrestricted_of_aggregate (hkind : x.classifyQuery query = .ok (.aggregate queryName))
    (h : x.NoSideDoor query user) (htable : (x.factTable "aggregate" queryName).isOk = true) :
    x.AllUnrestricted user := by
  apply allUnrestricted_of_reads
  intro view
  obtain ⟨call, hcall, hreads⟩ := aggregate_reads htable view
  refine ⟨_, h (some (countOf view)), call, ?_, hreads⟩
  rw [calls_executeWithSecurity hkind rfl]
  exact hcall

theorem allUnrestricted_of_window (hkind : x.classifyQuery query = .ok (.window queryName))
    (h : x.NoSideDoor query user) (htable : (x.factTable "window" queryName).isOk = true) :
    x.AllUnrestricted user := by
  apply allUnrestricted_of_reads
  intro view
  obtain ⟨call, hcall, hreads⟩ := window_reads htable view
  refine ⟨_, h (some (numberedRowsOf view)), call, ?_, hreads⟩
  rw [calls_executeWithSecurity hkind rfl]
  exact hcall

/-- An analytic query reads nothing without its fact table, and with it nothing that is restricted. -/
theorem readsPermitted_of_factTable {kind : String} {run : FactTableMetadata → Dispatched Json}
    (h : (x.factTable kind queryName).isOk = true → x.AllUnrestricted user) :
    x.ReadsPermitted user (lift (x.factTable kind queryName) >>= run).calls := by
  by_cases htable : (x.factTable kind queryName).isOk = true
  · exact readsPermitted_of_allUnrestricted (h htable)
  · rw [calls_of_factTable_error htable]
    exact nofun

theorem nodesUnrestricted_of_nodeQuery {selections : List ParsedSelection}
    (hbase64 : ∀ s, x.base.base64.decode (x.base.base64.encode s) = some s)
    (hkind : x.classifyQuery query = .ok (.nodeQuery selections)) (h : x.NoSideDoor query user) :
    x.NodesUnrestricted user := by
  intro typeName view htype hcolon hview d hd hsource
  apply unrestricted_of_permits_nodes
  intro uuid huuid
  obtain ⟨vars, hrequest⟩ := @nodeRequest_of_index x query selections hbase64 typeName view uuid htype hcolon
    hview huuid
  let request : ProjectionRequest :=
    ⟨view, x.nodeHint typeName selections, some (nodeCondition uuid), some 1, none, none⟩
  refine h vars (.read (.executeWithProjection request)) ?_ view _ rfl d hd hsource
  rw [calls_executeWithSecurity hkind rfl]
  exact mem_calls_executeNodeQuery.mpr ⟨request, hrequest, rfl⟩

theorem readsPermitted_of_nodesUnrestricted {vars : Option Json} {selections : List ParsedSelection}
    (h : x.NodesUnrestricted user) : x.ReadsPermitted user (x.executeNodeQuery query vars selections).calls := by
  intro call hcall view whereClause hreads d hd hsource
  obtain ⟨request, hrequest, rfl⟩ := mem_calls_executeNodeQuery.mp hcall
  obtain ⟨rfl, rfl⟩ := Prod.mk.inj (some.inj hreads)
  obtain ⟨typeName, htype, hcolon, hview⟩ := nodeRequest_reads hrequest
  exact (h typeName _ htype hcolon hview d hd hsource).permits

end Exact

/-- A root that reads without a user is no way around row security exactly when nothing is behind it that the
user may not see. -/
theorem noSideDoor_iff {x : Dispatcher} {query : String} {kind : QueryType} (user : SecurityContext)
    (hbase64 : ∀ s, x.base.base64.decode (x.base.base64.encode s) = some s)
    (hkind : x.classifyQuery query = .ok kind) (hspecial : kind.readsWithoutUser = true) :
    x.NoSideDoor query user ↔ x.NothingBehind user kind := by
  cases kind with
  | aggregate queryName =>
    refine ⟨allUnrestricted_of_aggregate hkind, fun h vars => ?_⟩
    rw [calls_executeWithSecurity hkind hspecial]
    exact readsPermitted_of_factTable h
  | window queryName =>
    refine ⟨allUnrestricted_of_window hkind, fun h vars => ?_⟩
    rw [calls_executeWithSecurity hkind hspecial]
    exact readsPermitted_of_factTable h
  | nodeQuery selections =>
    refine ⟨nodesUnrestricted_of_nodeQuery hbase64 hkind, fun h vars => ?_⟩
    rw [calls_executeWithSecurity hkind hspecial]
    exact readsPermitted_of_nodesUnrestricted h
  | _ => cases hspecial

/-- `query($id: ID!) { node(id: $id) { id } }`. -/
def nodeText : String := "query($id: ID!) \x7b node(id: $id) \x7b id \x7d \x7d"

def nodeLibrary : Library where
  parseDocument := fun text =>
    if text = nodeText then
      .ok ⟨[.operation [.field none ⟨"node", .refl true⟩ [(⟨"id", .refl true⟩, .variable ⟨"id", .refl true⟩)] []
        [.field none ⟨"id", .refl true⟩ [] [] []]]]⟩
    else .error "unexpected text"
  fromStr := fun _ => none
  isUppercase := Char.isUpper
  isLowercase := Char.isLower
  camelCase := false

/-- The orders of all tenants, as a list restricted to the tenant of the user. -/
def tenantDispatcher : Dispatcher :=
  .ofQueries { plainExecutor with
    schema := ⟨[], [tenantOrders], none, ⟨[], false⟩⟩
    base64 := ⟨Base64Codec.encode, Base64Codec.decode⟩ } nodeLibrary

theorem classify_nodeText : tenantDispatcher.classifyQuery nodeText =
    .ok (.nodeQuery [.mk "id" none [] [] []]) := rfl

theorem noSideDoor_iff_tenant : tenantDispatcher.NoSideDoor nodeText tenantUser ↔
    tenantDispatcher.NothingBehind tenantUser (.nodeQuery [.mk "id" none [] [] []]) :=
  noSideDoor_iff tenantUser Base64Codec.decode_encode classify_nodeText rfl

/-- A node query reads the orders of other tenants. -/
theorem node_reads_other_tenants : ¬∀ x : Dispatcher, ∀ query kind user, x.classifyQuery query = .ok kind →
    kind.readsWithoutUser = true → x.NoSideDoor query user := by
  intro h
  have hdoor := h tenantDispatcher nodeText _ tenantUser classify_nodeText rfl
  have hnodes := nodesUnrestricted_of_nodeQuery Base64Codec.decode_encode classify_nodeText hdoor
  have horders := hnodes "Order" "v_order" (by decide) (by decide) rfl tenantOrders (mem_singleton_self _) rfl
  cases horders.inject

end Dispatcher

end FraiseQL
