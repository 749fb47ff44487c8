import FraiseQL.Executor

/-! Row security on the read paths. A WHERE clause is read in three-valued logic, where a row is kept when the
clause is true; what a path hands to the adapter has to entail the row security clause and one equality for
each injected parameter. The regular and the relay path keep this; direct execution drops the injected
conditions, and neither it nor the count checks the role. -/

namespace FraiseQL

open Outcome Traced Executor List Option Except

/-! ### Entailment -/

/-- The conjunction of truth values; none is unknown. -/
def kleeneAnd : Option Bool → Option Bool → Option Bool
  | some false, _ => some false
  | _, some false => some false
  | some true, some true => some true
  | _, _ => none

def kleeneOr (a b : Option Bool) : Option Bool := (kleeneAnd (a.map not) (b.map not)).map not

mutual

/-- The truth value of a clause, given those of its conditions. -/
def truth (v : WhereClause → Option Bool) : WhereClause → Option Bool
  | .and clauses => truthAll v clauses
  | .or clauses => truthAny v clauses
  | .not clause => (truth v clause).map not
  | condition => v condition

def truthAll (v : WhereClause → Option Bool) : List WhereClause → Option Bool
  | [] => some true
  | clause :: clauses => kleeneAnd (truth v clause) (truthAll v clauses)

def truthAny (v : WhereClause → Option Bool) : List WhereClause → Option Bool
  | [] => some false
  | clause :: clauses => kleeneOr (truth v clause) (truthAny v clauses)

end

/-- Rows are kept where the clause is true; without a clause all are. -/
def Admits (v : WhereClause → Option Bool) (clause : Option WhereClause) : Prop :=
  ∀ c, clause = some c → truth v c = some true

/-- Whatever the first admits, the second is true of. -/
def Entails (clause : Option WhereClause) (condition : WhereClause) : Prop :=
  ∀ v, Admits v clause → truth v condition = some true

section Admits

variable {v : WhereClause → Option Bool}

theorem kleeneAnd_eq_true {a b : Option Bool} : kleeneAnd a b = some true ↔ a = some true ∧ b = some true := by
  rcases a with _ | _ | _ <;> rcases b with _ | _ | _ <;> decide

theorem truthAll_eq_true (clauses : List WhereClause) :
    truthAll v clauses = some true ↔ ∀ c ∈ clauses, truth v c = some true := by
  induction clauses with
  | nil => exact ⟨fun _ => nofun, fun _ => rfl⟩
  | cons clause clauses ih => rw [truthAll, kleeneAnd_eq_true, ih, forall_mem_cons]

theorem admits_none : Admits v none := nofun

theorem admits_some {c : WhereClause} : Admits v (some c) ↔ truth v c = some true := by
  constructor
  · intro h
    exact h c rfl
  · intro h c' hc
    rwa [← some.inj hc]

theorem admits_conjunction (clauses : List WhereClause) :
    Admits v (conjunction clauses) ↔ ∀ c ∈ clauses, truth v c = some true := by
  match clauses with
  | [] => exact ⟨fun _ => nofun, fun _ => admits_none⟩
  | [clause] => rw [conjunction, admits_some, forall_mem_singleton]
  | clause :: next :: clauses =>
    have hconj : conjunction (clause :: next :: clauses) = some (.and (clause :: next :: clauses)) := rfl
    rw [hconj, admits_some, truth, truthAll_eq_true]

theorem admits_composeWhere {sec user : Option WhereClause} :
    Admits v (composeWhere sec user) ↔ Admits v sec ∧ Admits v user := by
  cases sec with
  | none =>
    cases user with
    | none => exact ⟨fun h => ⟨h, h⟩, And.left⟩
    | some user => exact ⟨fun h => ⟨admits_none, h⟩, And.right⟩
  | some sec =>
    cases user with
    | none => exact ⟨fun h => ⟨h, admits_none⟩, And.left⟩
    | some user =>
      rw [composeWhere, admits_some, admits_some, admits_some, truth, truthAll_eq_true,
        forall_mem_cons, forall_mem_singleton]

/-- Explicit arguments only narrow the clause they are added to. -/
theorem admits_of_combineExplicitArgWhere {existing : Option WhereClause} {defined : List String}
    {provided : List (String × Json)} {natives : List (String × String)}
    (h : Admits v (combineExplicitArgWhere existing defined provided natives)) : Admits v existing := by
  unfold combineExplicitArgWhere at h
  dsimp only at h
  split_ifs at h
  · exact h
  · rw [admits_conjunction] at h
    intro c hc
    apply h c
    rw [hc]
    exact mem_append_left _ (mem_singleton_self c)

end Admits

/-! ### What a call has to satisfy -/

/-- An equality condition on a column. -/
def Equates (column : String) (value : Json) (clause : WhereClause) : Prop :=
  clause = .field [column] .eq value ∨ ∃ pgCast, clause = .nativeField column pgCast .eq value

/-- The user has the role that the query needs, if it needs one. -/
def RoleHeld (d : QueryDefinition) (ctx : Option SecurityContext) : Prop :=
  ∀ role, d.requiresRole = some role → ∃ user, ctx = some user ∧ role ∈ user.roles

/-- The clause entails the row security clause and an equality for each injected parameter. -/
structure Secured (x : Executor) (d : QueryDefinition) (ctx : Option SecurityContext)
    (whereClause : Option WhereClause) : Prop where
  rls : ∀ policy user clause, x.rlsPolicy = some policy → ctx = some user →
    policy user d.name = .ok (some clause) → Entails whereClause clause
  inject : ∀ param ∈ d.injectParams, ∃ user value clause, ctx = some user ∧
    resolveInjectValue param.1 param.2 user = .ok value ∧ Equates param.1 value clause ∧
    Entails whereClause clause

namespace Call

/-- Whether the call goes to the adapter. -/
def toAdapter : Call → Bool
  | .putResponse _ _ _ => false
  | _ => true

/-- The WHERE clause of a read. -/
def whereClause : Call → Option (Option WhereClause)
  | .executeWithProjection request => some request.whereClause
  | .executeWhereQuery request => some request.whereClause
  | .executeRelayPage request => some request.whereClause
  | _ => none

end Call

/-- The adapter is reached by users with the role of the query only, with a user when there are injected
parameters, and every read is secured. -/
def Guarded (x : Executor) (d : QueryDefinition) (ctx : Option SecurityContext) (calls : List Call) : Prop :=
  ∀ call ∈ calls, (call.toAdapter = true → RoleHeld d ctx ∧ (d.injectParams ≠ [] → ctx ≠ none)) ∧
    ∀ whereClause, call.whereClause = some whereClause → Secured x d ctx whereClause

/-- The read paths of the executor. -/
inductive ReadPath where
  | regular | direct | count | relay

/-- The calls of a run on a path. `execute_relay_query` is entered from the regular paths, for a match they
found. -/
inductive Runs (x : Executor) : ReadPath → QueryMatch → Option SecurityContext → List Call → Prop
  | regular {m : QueryMatch} {query : String} {vars : Option Json} {user : SecurityContext}
      (hmatch : x.matcher query vars = .ok m) :
      Runs x .regular m (some user) (x.executeRegularQueryWithSecurity query vars user).calls
  | direct (m : QueryMatch) (ctx : Option SecurityContext) :
      Runs x .direct m ctx (x.executeQueryDirect m ctx).calls
  | count (m : QueryMatch) (ctx : Option SecurityContext) : Runs x .count m ctx (x.countRows m ctx).calls
  | relay {m : QueryMatch} {query : String} {vars : Option Json} {user : SecurityContext}
      (hmatch : x.matcher query vars = .ok m) (hrelay : m.queryDef.relay = true) :
      Runs x .relay m (some user) (x.executeRegularQueryWithSecurity query vars user).calls
  | publicRelay {m : QueryMatch} {query : String} {vars : Option Json}
      (hmatch : x.matcher query vars = .ok m) (hrelay : m.queryDef.relay = true) :
      Runs x .relay m none (x.executeRegularQuery query vars).calls

/-! ### Requests -/

section Requests

variable {x : Executor} {m : QueryMatch} {d : QueryDefinition} {ctx : Option SecurityContext}
  {user : SecurityContext} {rls whereClause : Option WhereClause}

theorem equates_injectParamWhereClause (column : String) (value : Json) (natives : List (String × String)) :
    Equates column value (injectParamWhereClause column value natives) := by
  unfold injectParamWhereClause
  cases natives.lookup column with
  | some pgType => exact .inr ⟨_, rfl⟩
  | none => exact .inl rfl

/-- Each parameter has its condition among those of the clause. -/
theorem injectConditions_mem {natives : List (String × String)} {params : List (String × InjectedParamSource)}
    {conditions : List WhereClause} (h : injectConditions user natives params = .ok conditions) :
    ∀ param ∈ params, ∃ value, resolveInjectValue param.1 param.2 user = .ok value ∧
      injectParamWhereClause param.1 value natives ∈ conditions := by
  induction params generalizing conditions with
  | nil => exact nofun
  | cons param params ih =>
    simp only [injectConditions, bind_eq_ok, pure_eq_ok] at h
    obtain ⟨value, hvalue, rest, hrest, rfl⟩ := h
    intro other hother
    rcases mem_cons.mp hother with rfl | hother
    · exact ⟨value, hvalue, mem_cons_self ..⟩
    · obtain ⟨value', hvalue', hmem⟩ := ih hrest other hother
      exact ⟨value', hvalue', mem_cons_of_mem _ hmem⟩

theorem entails_of_mem {clauses : List WhereClause} {c : WhereClause} (h : c ∈ clauses) :
    Entails (conjunction clauses) c :=
  fun _ hv => (admits_conjunction clauses).mp hv c h

theorem Secured.narrow {narrower : Option WhereClause} (h : Secured x d ctx whereClause)
    (hnarrow : ∀ v, Admits v narrower → Admits v whereClause) : Secured x d ctx narrower := by
  constructor
  · intro policy user clause hpolicy hctx hclause v hv
    exact h.rls policy user clause hpolicy hctx hclause v (hnarrow v hv)
  · intro param hparam
    obtain ⟨user, value, clause, hctx, hvalue, hequates, hentails⟩ := h.inject param hparam
    exact ⟨user, value, clause, hctx, hvalue, hequates, fun v hv => hentails v (hnarrow v hv)⟩

theorem evaluateRls_eq {policy : RlsPolicy} {clause : WhereClause} (hpolicy : x.rlsPolicy = some policy)
    (hctx : ctx = some user) (hclause : policy user d.name = .ok (some clause))
    (hrls : evaluateRls x.rlsPolicy ctx d.name = .ok rls) : rls = some clause := by
  rw [hpolicy, hctx, evaluateRls, hclause] at hrls
  exact (ok.inj hrls).symm

/-- Without injected parameters the row security clause is all there is to secure. -/
theorem secured_of_rls (hrls : evaluateRls x.rlsPolicy ctx d.name = .ok rls) (hinject : d.injectParams = []) :
    Secured x d ctx rls := by
  constructor
  · intro policy user clause hpolicy hctx hclause v hv
    rw [evaluateRls_eq hpolicy hctx hclause hrls] at hv
    exact admits_some.mp hv
  · rw [hinject]
    exact nofun

theorem secured_of_injectedWhere (hrls : evaluateRls x.rlsPolicy (some user) d.name = .ok rls)
    (h : injectedWhere d rls user = .ok whereClause) : Secured x d (some user) whereClause := by
  unfold injectedWhere at h
  split_ifs at h with hinject
  · obtain rfl := ok.inj h
    exact secured_of_rls hrls (isEmpty_iff.mp hinject)
  · simp only [bind_eq_ok, pure_eq_ok] at h
    obtain ⟨conditions, hconditions, rfl⟩ := h
    constructor
    · intro policy user' clause hpolicy hctx hclause
      rw [evaluateRls_eq hpolicy hctx hclause hrls]
      exact entails_of_mem (mem_append_left _ (mem_singleton_self clause))
    · intro param hparam
      obtain ⟨value, hvalue, hmem⟩ := injectConditions_mem hconditions param hparam
      exact ⟨user, value, _, rfl, hvalue, equates_injectParamWhereClause ..,
        entails_of_mem (mem_append_right _ hmem)⟩

theorem composeWhere_narrows (sec client : Option WhereClause) (v : WhereClause → Option Bool)
    (h : Admits v (composeWhere sec client)) : Admits v sec :=
  (admits_composeWhere.mp h).1

theorem securedRequest_secured {request : ProjectionRequest} (h : x.securedRequest m user = .ok request) :
    Secured x m.queryDef (some user) request.whereClause := by
  simp only [securedRequest, bind_eq_ok, pure_eq_ok] at h
  obtain ⟨rls, hrls, _, _, secured, hsecured, client, _, _, _, rfl⟩ := h
  refine (secured_of_injectedWhere hrls hsecured).narrow ?_
  intro v hv
  exact composeWhere_narrows _ _ v (admits_of_combineExplicitArgWhere hv)

theorem okOr_eq_ok {α : Type} {value : Option α} {e : FraiseQLError} {a : α} :
    okOr value e = .ok a ↔ value = some a := by
  cases value with
  | none => exact ⟨nofun, nofun⟩
  | some b => exact ⟨fun h => congrArg some (ok.inj h), fun h => congrArg ok (some.inj h)⟩

/-- A path that may run without a user secures its reads and needs a user for injected parameters. -/
theorem securityWhere_secured {missing : FraiseQLError} (hrls : evaluateRls x.rlsPolicy ctx d.name = .ok rls)
    (h : securityWhere d rls ctx missing = .ok whereClause) :
    Secured x d ctx whereClause ∧ (d.injectParams ≠ [] → ctx ≠ none) := by
  unfold securityWhere at h
  split_ifs at h with hinject
  · obtain rfl := ok.inj h
    have hnil := isEmpty_iff.mp hinject
    exact ⟨secured_of_rls hrls hnil, fun hne => absurd hnil hne⟩
  · simp only [bind_eq_ok, okOr_eq_ok] at h
    obtain ⟨user, rfl, h⟩ := h
    exact ⟨secured_of_injectedWhere hrls h, fun _ => some_ne_none _⟩

theorem relayPlan_secured {vars : Option Json} {plan : Executor.RelayPlan}
    (h : x.relayPlan m vars ctx = .ok plan) :
    Secured x m.queryDef ctx plan.request.whereClause ∧ (m.queryDef.injectParams ≠ [] → ctx ≠ none) := by
  unfold relayPlan at h
  dsimp only at h
  split_ifs at h
  simp only [bind_eq_ok, pure_eq_ok] at h
  obtain ⟨_, _, _, _, _, _, rls, hrls, secured, hsecured, _, _, _, _, client, _, _, _, rfl⟩ := h
  obtain ⟨hsec, hneeds⟩ := securityWhere_secured hrls hsecured
  exact ⟨hsec.narrow (composeWhere_narrows _ _), hneeds⟩

theorem countRequest_secured {request : WhereRequest} (h : x.countRequest m ctx = .ok request) :
    Secured x m.queryDef ctx request.whereClause ∧ (m.queryDef.injectParams ≠ [] → ctx ≠ none) := by
  simp only [countRequest, bind_eq_ok, pure_eq_ok] at h
  obtain ⟨rls, hrls, _, _, secured, hsecured, client, _, rfl⟩ := h
  obtain ⟨hsec, hneeds⟩ := securityWhere_secured hrls hsecured
  exact ⟨hsec.narrow (composeWhere_narrows _ _), hneeds⟩

/-- Direct execution secures its read when there is nothing to inject. -/
theorem directRequest_secured {request : ProjectionRequest} (h : x.directRequest m ctx = .ok request)
    (hinject : m.queryDef.injectParams = []) : Secured x m.queryDef ctx request.whereClause := by
  simp only [directRequest, bind_eq_ok, pure_eq_ok] at h
  obtain ⟨rls, hrls, _, _, client, _, _, _, _, _, rfl⟩ := h
  exact (secured_of_rls hrls hinject).narrow (composeWhere_narrows _ _)

end Requests

/-! ### Calls -/

section Calls

variable {x : Executor} {m : QueryMatch} {ctx : Option SecurityContext} {user : SecurityContext} {c : Call}

theorem mem_calls_computeResponse : c ∈ (x.computeResponse m user).calls ↔
    ∃ request, x.securedRequest m user = .ok request ∧ c = .executeWithProjection request := by
  simp [computeResponse, executeWithProjection]

theorem mem_calls_executeRelayQuery {vars : Option Json} : c ∈ (x.executeRelayQuery m vars ctx).calls ↔
    ∃ plan, x.relayPlan m vars ctx = .ok plan ∧ c = .executeRelayPage plan.request := by
  simp [executeRelayQuery]

theorem mem_calls_executeQueryDirect : c ∈ (x.executeQueryDirect m ctx).calls ↔
    ∃ request, x.directRequest m ctx = .ok request ∧ c = .executeWithProjection request := by
  simp [executeQueryDirect, executeWithProjection]

theorem mem_calls_countRows : c ∈ (x.countRows m ctx).calls ↔
    ∃ request, x.countRequest m ctx = .ok request ∧ c = .executeWhereQuery request := by
  simp [countRows]

/-- The response cache only adds a call that is not for the adapter. -/
theorem mem_calls_executeCached (h : c ∈ (x.executeCached m user).calls) :
    c ∈ (x.computeResponse m user).calls ∨ ∃ key response views, c = .putResponse key response views := by
  unfold executeCached at h
  split at h
  · exact .inl h
  · split at h
    · cases h
    · simp only [mem_calls_bind, calls_call, calls_pure, mem_singleton,
        not_mem_nil, and_false, exists_false, or_false] at h
      rcases h with h | ⟨_, _, rfl⟩
      · exact .inl h
      · exact .inr ⟨_, _, _, rfl⟩

theorem mem_calls_injectSessionVariables (h : c ∈ (x.injectSessionVariables user).calls) :
    ∃ pairs, c = .setSessionVariables pairs := by
  unfold injectSessionVariables at h
  dsimp only at h
  split_ifs at h
  · cases h
  · exact ⟨_, mem_singleton.mp h⟩

/-- A secured read of a user with the role of the query. -/
theorem guarded_read {d : QueryDefinition} {whereClause : Option WhereClause}
    (hclause : c.whereClause = some whereClause) (hrole : RoleHeld d ctx)
    (hsecured : Secured x d ctx whereClause ∧ (d.injectParams ≠ [] → ctx ≠ none)) :
    (c.toAdapter = true → RoleHeld d ctx ∧ (d.injectParams ≠ [] → ctx ≠ none)) ∧
      ∀ w, c.whereClause = some w → Secured x d ctx w := by
  refine ⟨fun _ => ⟨hrole, hsecured.2⟩, ?_⟩
  intro w hw
  rw [hclause] at hw
  obtain rfl := some.inj hw
  exact hsecured.1

theorem roleHeld_of_hasRequiredRole {d : QueryDefinition} (h : hasRequiredRole d user = true) :
    RoleHeld d (some user) := by
  intro role hrole
  refine ⟨user, rfl, ?_⟩
  rw [hasRequiredRole, hrole, all_some] at h
  exact contains_iff_mem.mp h

theorem guarded_regular {query : String} {vars : Option Json} (hmatch : x.matcher query vars = .ok m) :
    Guarded x m.queryDef (some user) (x.executeRegularQueryWithSecurity query vars user).calls := by
  intro c hc
  unfold executeRegularQueryWithSecurity at hc
  split_ifs at hc with hexpired
  · cases hc
  simp only [hmatch, mem_calls_bind, calls_lift, outcome_lift, not_mem_nil, false_or,
    ok.injEq, exists_eq_left'] at hc
  split_ifs at hc with hrole hrelay
  · cases hc
  · have hheld := roleHeld_of_hasRequiredRole (by simpa using hrole)
    simp only [mem_calls_bind] at hc
    rcases hc with hc | ⟨_, _, hc⟩
    · obtain ⟨pairs, rfl⟩ := mem_calls_injectSessionVariables hc
      exact ⟨fun _ => ⟨hheld, fun _ => some_ne_none _⟩, by rintro _ ⟨⟩⟩
    · obtain ⟨plan, hplan, rfl⟩ := mem_calls_executeRelayQuery.mp hc
      exact guarded_read rfl hheld (relayPlan_secured hplan)
  · have hheld := roleHeld_of_hasRequiredRole (by simpa using hrole)
    simp only [mem_calls_bind] at hc
    rcases hc with hc | ⟨_, _, hc⟩
    · obtain ⟨pairs, rfl⟩ := mem_calls_injectSessionVariables hc
      exact ⟨fun _ => ⟨hheld, fun _ => some_ne_none _⟩, by rintro _ ⟨⟩⟩
    · rcases mem_calls_executeCached hc with hc | ⟨key, response, views, rfl⟩
      · obtain ⟨request, hrequest, rfl⟩ := mem_calls_computeResponse.mp hc
        exact guarded_read rfl hheld ⟨securedRequest_secured hrequest, fun _ => some_ne_none _⟩
      · exact ⟨by rintro ⟨⟩, by rintro _ ⟨⟩⟩

theorem guarded_publicRelay {query : String} {vars : Option Json} (hmatch : x.matcher query vars = .ok m)
    (hrelay : m.queryDef.relay = true) : Guarded x m.queryDef none (x.executeRegularQuery query vars).calls := by
  intro c hc
  simp only [executeRegularQuery, hmatch, mem_calls_bind, calls_lift,
    outcome_lift, not_mem_nil, false_or, ok.injEq, exists_eq_left'] at hc
  split_ifs at hc with hrole hinject
  · cases hc
  · cases hc
  · obtain ⟨plan, hplan, rfl⟩ := mem_calls_executeRelayQuery.mp hc
    have hheld : RoleHeld m.queryDef none := by
      intro role hsome
      rw [hsome] at hrole
      exact absurd rfl hrole
    exact guarded_read rfl hheld (relayPlan_secured hplan)

end Calls

/-! ### The exact condition -/

/-- Every injected parameter has its claim in the token. -/
def Resolves (d : QueryDefinition) (ctx : Option SecurityContext) : Prop :=
  ∀ param ∈ d.injectParams, ∃ user value, ctx = some user ∧
    resolveInjectValue param.1 param.2 user = .ok value

/-- When a path guards a query definition for a user. -/
def Covered : ReadPath → QueryDefinition → Option SecurityContext → Prop
  | .regular, _, _ => True
  | .relay, _, _ => True
  | .count, d, ctx => d.sqlSource = none ∨ RoleHeld d ctx ∨ ¬Resolves d ctx
  | .direct, d, ctx => d.sqlSource = none ∨ (RoleHeld d ctx ∧ d.injectParams = []) ∨
      (ctx ≠ none ∧ ¬Resolves d ctx)

section Exact

variable {x : Executor} {m : QueryMatch} {d : QueryDefinition} {ctx : Option SecurityContext}
  {user : SecurityContext}

theorem injectConditions_ok (natives : List (String × String)) {params : List (String × InjectedParamSource)}
    (h : ∀ param ∈ params, ∃ value, resolveInjectValue param.1 param.2 user = .ok value) :
    ∃ conditions, injectConditions user natives params = .ok conditions := by
  induction params with
  | nil => exact ⟨[], rfl⟩
  | cons param params ih =>
    obtain ⟨value, hvalue⟩ := h param (mem_cons_self ..)
    obtain ⟨rest, hrest⟩ := ih fun p hp => h p (mem_cons_of_mem _ hp)
    refine ⟨injectParamWhereClause param.1 value natives :: rest, ?_⟩
    simp only [injectConditions, hvalue, hrest]
    rfl

theorem resolves_of_injectConditions {natives : List (String × String)} {conditions : List WhereClause}
    (h : injectConditions user natives d.injectParams = .ok conditions) : Resolves d (some user) := by
  intro param hparam
  obtain ⟨value, hvalue, _⟩ := injectConditions_mem h param hparam
  exact ⟨user, value, rfl, hvalue⟩

/-- Nothing is entailed by the absence of a clause that some valuation refutes. -/
theorem not_entails_none {column : String} {value : Json} {clause : WhereClause}
    (h : Equates column value clause) : ¬Entails none clause := by
  intro hentails
  have htrue := hentails (fun _ => none) admits_none
  rcases h with rfl | ⟨_, rfl⟩ <;> cases htrue

/-- An executor without a policy, over an empty database. -/
def plainExecutor : Executor where
  schema := ⟨[], [], none, ⟨[], false⟩⟩
  matcher := fun _ _ => .error noSqlSource
  defaultStrategy := .project
  rlsPolicy := none
  responseCache := none
  adapter := ⟨.postgresql, fun _ => .ok (), fun _ => .ok [], fun _ => .ok []⟩
  relay := none
  base64 := ⟨id, some⟩
  parseJson := fun _ => none
  charCase := .ascii
  hasher := fun _ => 0
  now := 0
  nowText := ""

/-- A match without arguments. -/
def bareMatch (d : QueryDefinition) : QueryMatch := ⟨d, [], [], QueryMatch.sorted_nil⟩

theorem userWhere_none (cc : WhereFilter.CharCase) (d : QueryDefinition) : userWhere cc d none = .ok none := by
  unfold userWhere
  split_ifs <;> rfl

theorem combineExplicitArgWhere_nil (existing : Option WhereClause) (defined : List String)
    (natives : List (String × String)) : combineExplicitArgWhere existing defined [] natives = existing := by
  have hnone : explicitConditions defined [] natives = [] := by
    unfold explicitConditions
    apply filterMap_eq_nil_iff.mpr
    intro name _
    rfl
  rw [combineExplicitArgWhere, hnone]
  rfl

theorem directRequest_plain {source : String} (hsource : d.sqlSource = some source)
    (hresolves : ctx = none ∨ Resolves d ctx) :
    plainExecutor.directRequest (bareMatch d) ctx = .ok ⟨source, none, none, none, none, none⟩ := by
  have hdropped : ∃ conditions, droppedConditions d ctx = .ok conditions := by
    cases ctx with
    | none => exact ⟨[], rfl⟩
    | some user =>
      apply injectConditions_ok
      intro param hparam
      obtain ⟨_, value, hctx, hvalue⟩ := hresolves.resolve_left nofun param hparam
      obtain rfl := some.inj hctx
      exact ⟨value, hvalue⟩
  obtain ⟨conditions, hdropped⟩ := hdropped
  have hrls : evaluateRls plainExecutor.rlsPolicy ctx d.name = .ok none := by
    unfold evaluateRls
    cases ctx <;> rfl
  simp only [directRequest, bind_eq_ok, pure_eq_ok, okOr_eq_ok]
  refine ⟨none, hrls, source, hsource, none, userWhere_none _ d, none, rfl, conditions, hdropped, ?_⟩
  show ProjectionRequest.mk source none (composeWhere none (combineExplicitArgWhere none d.arguments []
    d.nativeColumns)) none none none = _
  rw [combineExplicitArgWhere_nil]
  rfl

theorem countRequest_plain {source : String} (hsource : d.sqlSource = some source) (hresolves : Resolves d ctx) :
    ∃ request, plainExecutor.countRequest (bareMatch d) ctx = .ok request := by
  have hrls : evaluateRls plainExecutor.rlsPolicy ctx d.name = .ok none := by
    unfold evaluateRls
    cases ctx <;> rfl
  have hsecured : ∀ missing, ∃ secured, securityWhere d none ctx missing = .ok secured := by
    intro missing
    unfold securityWhere
    split_ifs with hinject
    · exact ⟨none, rfl⟩
    · obtain ⟨param, hparam⟩ := exists_mem_of_ne_nil _ fun hnil => hinject (isEmpty_iff.mpr hnil)
      obtain ⟨user, _, rfl, _⟩ := hresolves param hparam
      obtain ⟨conditions, hconditions⟩ : ∃ conditions,
          injectConditions user d.nativeColumns d.injectParams = .ok conditions := by
        apply injectConditions_ok
        intro param hparam
        obtain ⟨_, value, hctx, hvalue⟩ := hresolves param hparam
        obtain rfl := some.inj hctx
        exact ⟨value, hvalue⟩
      refine ⟨conjunction conditions, ?_⟩
      show injectedWhere d none user = _
      rw [injectedWhere, if_neg hinject, hconditions]
      rfl
  obtain ⟨secured, hsecured⟩ := hsecured (.validation ("Query '" ++ d.name ++
    "' has inject params but no security context is available") none)
  refine ⟨⟨source, composeWhere secured none⟩, ?_⟩
  simp only [countRequest, bind_eq_ok, pure_eq_ok, okOr_eq_ok]
  exact ⟨none, hrls, source, hsource, secured, hsecured, none, userWhere_none _ d, rfl⟩

theorem guarded_of_covered {path : ReadPath} {calls : List Call} (hruns : Runs x path m ctx calls)
    (hcovered : Covered path m.queryDef ctx) : Guarded x m.queryDef ctx calls := by
  cases hruns with
  | regular hmatch => exact guarded_regular hmatch
  | relay hmatch hrelay => exact guarded_regular hmatch
  | publicRelay hmatch hrelay => exact guarded_publicRelay hmatch hrelay
  | count m ctx =>
    intro c hc
    obtain ⟨request, hrequest, rfl⟩ := mem_calls_countRows.mp hc
    have hsecured := countRequest_secured hrequest
    rcases hcovered with hsource | hrole | hresolves
    · simp only [countRequest, bind_eq_ok, okOr_eq_ok, hsource] at hrequest
      obtain ⟨_, _, _, hsome, _⟩ := hrequest
      cases hsome
    · exact guarded_read rfl hrole hsecured
    · refine absurd ?_ hresolves
      intro param hparam
      obtain ⟨user, value, _, hctx, hvalue, _⟩ := hsecured.1.inject param hparam
      exact ⟨user, value, hctx, hvalue⟩
  | direct m ctx =>
    intro c hc
    obtain ⟨request, hrequest, rfl⟩ := mem_calls_executeQueryDirect.mp hc
    rcases hcovered with hsource | ⟨hrole, hinject⟩ | ⟨hctx, hresolves⟩
    · simp only [directRequest, bind_eq_ok, okOr_eq_ok, hsource] at hrequest
      obtain ⟨_, _, _, hsome, _⟩ := hrequest
      cases hsome
    · exact guarded_read rfl hrole ⟨directRequest_secured hrequest hinject, fun hne => absurd hinject hne⟩
    · simp only [directRequest, bind_eq_ok] at hrequest
      obtain ⟨_, _, _, _, _, _, _, _, _, hdropped, _⟩ := hrequest
      cases ctx with
      | none => exact absurd rfl hctx
      | some user => exact absurd (resolves_of_injectConditions hdropped) hresolves

theorem covered_count (h : ∀ m, m.queryDef = d →
    Guarded plainExecutor d ctx (plainExecutor.countRows m ctx).calls) : Covered .count d ctx := by
  cases hsource : d.sqlSource with
  | none => exact .inl hsource
  | some source =>
    by_cases hresolves : Resolves d ctx
    · obtain ⟨request, hrequest⟩ := countRequest_plain hsource hresolves
      have hcall := h (bareMatch d) rfl _ (mem_calls_countRows.mpr ⟨request, hrequest, rfl⟩)
      exact .inr (.inl (hcall.1 rfl).1)
    · exact .inr (.inr hresolves)

theorem covered_direct (h : ∀ m, m.queryDef = d →
    Guarded plainExecutor d ctx (plainExecutor.executeQueryDirect m ctx).calls) : Covered .direct d ctx := by
  cases hsource : d.sqlSource with
  | none => exact .inl hsource
  | some source =>
    by_cases hresolves : ctx = none ∨ Resolves d ctx
    · have hrequest := directRequest_plain hsource hresolves
      have hcall := h (bareMatch d) rfl _ (mem_calls_executeQueryDirect.mpr ⟨_, hrequest, rfl⟩)
      refine .inr (.inl ⟨(hcall.1 rfl).1, ?_⟩)
      by_contra hinject
      obtain ⟨param, hparam⟩ := exists_mem_of_ne_nil _ hinject
      obtain ⟨_, _, _, _, _, hequates, hentails⟩ := (hcall.2 none rfl).inject param hparam
      exact not_entails_none hequates hentails
    · rw [not_or] at hresolves
      exact .inr (.inr hresolves)

/-- A path guards a query definition for a user, whatever the policy, the arguments and the database, exactly
when it is covered. -/
theorem readPath_guarded_iff (path : ReadPath) (d : QueryDefinition) (ctx : Option SecurityContext) :
    (∀ x m calls, m.queryDef = d → Runs x path m ctx calls → Guarded x d ctx calls) ↔ Covered path d ctx := by
  constructor
  · intro h
    cases path with
    | regular => trivial
    | relay => trivial
    | count => exact covered_count fun m hm => h _ m _ hm (.count m ctx)
    | direct => exact covered_direct fun m hm => h _ m _ hm (.direct m ctx)
  · rintro hcovered x m calls rfl hruns
    exact guarded_of_covered hruns hcovered

end Exact

/-- A list of orders restricted to the tenant of the user. -/
def tenantOrders : QueryDefinition where
  name := "orders"
  returnType := "Order"
  returnsList := true
  arguments := []
  sqlSource := some "v_order"
  autoParams := ⟨true, true, true, true⟩
  relay := false
  relayCursorColumn := none
  relayCursorType := .int64
  injectParams := [("tenant_id", .jwt "tenant_id")]
  requiresRole := none
  nativeColumns := []

def tenantUser : SecurityContext where
  userId := "ada"
  roles := []
  tenantId := some "acme"
  scopes := []
  attributes := []
  requestId := "r1"
  ipAddress := none
  authenticatedAt := 0
  expiresAt := 3600
  issuer := none
  audience := none

/-- Direct execution reads the orders of every tenant. -/
theorem direct_drops_tenant : ¬∀ path x m ctx calls, Runs x path m ctx calls →
    Guarded x m.queryDef ctx calls := by
  intro h
  have hguarded := h .direct plainExecutor (bareMatch tenantOrders) (some tenantUser) _ (.direct _ _)
  have hsecured := (hguarded (.executeWithProjection ⟨"v_order", none, none, none, none, none⟩)
    (mem_singleton.mpr rfl)).2 none rfl
  obtain ⟨_, _, _, _, _, hequates, hentails⟩ := hsecured.inject _ (mem_singleton_self _)
  exact not_entails_none hequates hentails

end FraiseQL
