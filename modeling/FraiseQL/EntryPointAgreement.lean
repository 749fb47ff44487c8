import FraiseQL.ExecutorDispatch

/-! The two entry points on one document. For a schema that protects nothing they return the same response, with
one entry for each root, as long as the document has a single root under its own name: the authenticated entry
point never runs a second root, and both classify by the first one and answer under its definition's name. -/

namespace FraiseQL

open Graphql Outcome Traced ResultProjector Executor List Option Except

/-! ### The response keys of a document -/

/-- The response keys of the root selections: fields whose directives keep them, through inline fragments and
fragment spreads. -/
inductive RootKey (lib : Library) (vars : Option Json) (fragments : List FragmentDefinition) :
    List ParsedSelection → String → Prop
  | field {sels : List ParsedSelection} {sel : ParsedSelection} (hmem : sel ∈ sels)
      (hkept : evaluateDirectives lib.fromStr (variablesMap vars) sel.directives = .ok true)
      (hname : stripStart ['.', '.', '.'] sel.name = none) : RootKey lib vars fragments sels sel.responseKey
  | inlineFragment {sels : List ParsedSelection} {sel : ParsedSelection} {condition key : String} (hmem : sel ∈ sels)
      (hkept : evaluateDirectives lib.fromStr (variablesMap vars) sel.directives = .ok true)
      (hname : stripStart ['.', '.', '.'] sel.name = some condition)
      (hon : ['o', 'n', ' '].isPrefixOf condition.toList = true)
      (hkey : RootKey lib vars fragments sel.nestedFields key) : RootKey lib vars fragments sels key
  | spread {sels : List ParsedSelection} {sel : ParsedSelection} {fragmentName key : String}
      {fragment : FragmentDefinition} (hmem : sel ∈ sels)
      (hkept : evaluateDirectives lib.fromStr (variablesMap vars) sel.directives = .ok true)
      (hname : stripStart ['.', '.', '.'] sel.name = some fragmentName)
      (hon : ['o', 'n', ' '].isPrefixOf fragmentName.toList = false)
      (hfragment : findFragment fragments fragmentName = some fragment)
      (hkey : RootKey lib vars fragments fragment.selections key) : RootKey lib vars fragments sels key

/-- A single field without directives has the one key. -/
theorem rootKey_singleton {lib : Library} {vars : Option Json} {fragments : List FragmentDefinition}
    {sel : ParsedSelection} (hname : stripStart ['.', '.', '.'] sel.name = none) (hdirectives : sel.directives = [])
    (key : String) : RootKey lib vars fragments [sel] key ↔ key = sel.responseKey := by
  constructor
  · intro h
    cases h with
    | field hmem _ _ => rw [mem_singleton.mp hmem]
    | inlineFragment hmem _ hother _ _ | spread hmem _ hother _ _ _ =>
      rw [mem_singleton.mp hmem, hname] at hother
      cases hother
  · rintro rfl
    refine .field (mem_singleton_self sel) ?_ hname
    rw [hdirectives]
    rfl

/-! ### The property -/

/-- The same response, or two failures. -/
def SameAnswer (a b : Except FraiseQLError Json) : Prop :=
  (∃ response, a = .ok response ∧ b = .ok response) ∨ (a.isOk = false ∧ b.isOk = false)

namespace Dispatcher

variable (x : Dispatcher)

/-- The data of a response has exactly one entry for each root response key of the document. -/
def CoversRoots (parsed : ParsedQuery) (vars : Option Json) (response : Json) : Prop :=
  ∃ entries, response.get? "data" = some (.obj entries) ∧ (entries.map Prod.fst).Nodup ∧
    ∀ key, key ∈ entries.map Prod.fst ↔ RootKey x.lib vars parsed.fragments parsed.selections key

/-- Both entry points answer alike, and the whole document. -/
def AnswersDocument (query : String) (vars : Option Json) (user : SecurityContext) : Prop :=
  SameAnswer (x.executeWithSecurity query vars user).outcome (x.execute query vars).outcome ∧
    ∀ response, (x.executeWithSecurity query vars user).outcome = .ok response →
      ∃ parsed, parseQuery x.lib query = .ok parsed ∧ x.CoversRoots parsed vars response

/-- No definition requires a role, a scope, row security or an injected parameter. -/
structure Unprotected : Prop where
  policy : x.base.rlsPolicy = none
  queries : ∀ d ∈ x.base.schema.queries, d.requiresRole = none ∧ d.injectParams = []
  fields : ∀ t ∈ x.base.schema.types, ∀ f ∈ t.fields, f.requiresScope = none
  mutations : ∀ m ∈ x.mutations.mutations, m.injectParams = []

/-- The session variables of the schema, if any are configured, are accepted for the user. -/
def SessionAccepted (user : SecurityContext) : Prop :=
  x.base.schema.sessionVariables.mappings ≠ [] ∨ x.base.schema.sessionVariables.injectStartedAt = true →
    x.base.adapter.setSessionVariables
      (resolveSessionVariables x.base.schema.sessionVariables user x.base.nowText) = .ok ()

/-- No response is cached for a regular query and the user. -/
def NotCached (query : String) (vars : Option Json) (user : SecurityContext) : Prop :=
  ∀ cache m, x.matched.activeCache = some cache → matchQuery x.lib x.base.schema query vars = .ok m →
    m.queryDef.relay = false → cache.get (x.matched.responseCacheKey m user) = none

/-- The conditions of a regular query: a single root, under the name of its definition. -/
structure RegularAnswered (query : String) (vars : Option Json) (user : SecurityContext) (parsed : ParsedQuery) :
    Prop where
  single : parsed.selections.length ≤ 1
  keys : ∀ d, x.lib.findQuery x.base.schema.queries parsed.rootField = some d →
    ∀ key, RootKey x.lib vars parsed.fragments parsed.selections key ↔ key = d.name
  unexpired : user.isExpired x.base.now = false
  session : x.SessionAccepted user
  notCached : x.NotCached query vars user

/-- The conditions of a mutation: no key but that of the first root. -/
structure MutationAnswered (vars : Option Json) (user : SecurityContext) (parsed : ParsedQuery) : Prop where
  keys : ∀ key, RootKey x.lib vars parsed.fragments parsed.selections key ↔ key = parsed.rootField
  supported : x.mutations.supportsMutations = true
  session : x.SessionAccepted user

/-- The conditions by the kind of the query. -/
def KindAnswered (query : String) (vars : Option Json) (user : SecurityContext) (parsed : ParsedQuery) :
    QueryType → Prop
  | .regular => x.RegularAnswered query vars user parsed
  | .mutation _ _ => x.MutationAnswered vars user parsed
  | _ => ∀ key, RootKey x.lib vars parsed.fragments parsed.selections key ↔ key = parsed.rootField

/-- When both entry points answer the whole document. -/
structure Answered (query : String) (vars : Option Json) (user : SecurityContext) : Prop where
  valid : x.validateQuery query = .ok ()
  parseCache : ∀ pair, x.parseCache (x.queryHash query) = some pair → x.classifyQueryWithParse query = .ok pair
  kind : ∀ parsed, parseQuery x.lib query = .ok parsed →
    x.KindAnswered query vars user parsed (classifyParsed (x.operationKind query) parsed)

end Dispatcher

/-! ### Regular queries -/

section Regular

variable {x : Executor} {m : QueryMatch} {user : SecurityContext}

theorem securedRequest_eq (hpolicy : x.rlsPolicy = none) (hinject : m.queryDef.injectParams = []) :
    x.securedRequest m user = x.publicRequest m := by
  have hrls : evaluateRls x.rlsPolicy (some user) m.queryDef.name = .ok none := by
    rw [hpolicy]
    rfl
  have hinjected : injectedWhere m.queryDef none user = .ok none := by
    rw [injectedWhere, hinject]
    rfl
  have hcompose : ∀ client, composeWhere none client = client := by
    intro client
    cases client <;> rfl
  unfold securedRequest publicRequest
  simp only [hrls, ok_bind, hinjected, hcompose]

theorem classifyFieldAccess_open {config : SecurityConfig} {fields : List FieldDefinition}
    (h : ∀ f ∈ fields, f.requiresScope = none) (names : List String) :
    classifyFieldAccess user config fields names = .ok ⟨names, []⟩ := by
  induction names with
  | nil => rfl
  | cons name names ih =>
    rw [classifyFieldAccess, ih]
    cases hfind : fields.find? fun f => f.name = name with
    | none => rfl
    | some field =>
      have haccess : canAccessField user config field = true := by
        rw [canAccessField, h field (mem_of_find?_eq_some hfind)]
      simp only [haccess]
      rfl

theorem applyFieldRbacFiltering_open {schema : CompiledSchema}
    (h : ∀ t ∈ schema.types, ∀ f ∈ t.fields, f.requiresScope = none) (returnType : String) (fields : List String) :
    applyFieldRbacFiltering schema returnType fields user = .ok ⟨fields, []⟩ := by
  unfold applyFieldRbacFiltering
  cases schema.security with
  | none => rfl
  | some config =>
    cases htype : schema.findType returnType with
    | none => rfl
    | some typeDef =>
      have hmem : typeDef ∈ schema.types := mem_of_find?_eq_some htype
      simp only [classifyFieldAccess_open (h typeDef hmem)]

theorem securedResponse_eq (hfields : ∀ t ∈ x.schema.types, ∀ f ∈ t.fields, f.requiresScope = none)
    (results : List Json) : x.securedResponse m user results = .ok (x.publicResponse m results) := by
  unfold securedResponse publicResponse
  dsimp only
  rw [applyFieldRbacFiltering_open hfields]
  show ok _ = _
  simp only [append_nil, isEmpty_nil, if_true]

variable {vars : Option Json}

theorem relayPlan_eq (hpolicy : x.rlsPolicy = none)
    (hinject : m.queryDef.injectParams = []) : x.relayPlan m vars (some user) = x.relayPlan m vars none := by
  have hrls : ∀ ctx, evaluateRls x.rlsPolicy ctx m.queryDef.name = .ok none := by
    intro ctx
    rw [hpolicy]
    rfl
  have hsecured : ∀ ctx missing, securityWhere m.queryDef none ctx missing = .ok none := by
    intro ctx missing
    rw [securityWhere, hinject]
    rfl
  unfold relayPlan
  simp only [hrls, ok_bind, hsecured, hinject, isEmpty_nil, Bool.not_true, Bool.false_and]

theorem executeCached_outcome (hmiss : ∀ cache, x.activeCache = some cache →
    cache.get (x.responseCacheKey m user) = none) :
    (x.executeCached m user).outcome = (x.computeResponse m user).outcome := by
  unfold executeCached
  cases hcache : x.activeCache with
  | none => rfl
  | some cache =>
    simp only [hmiss cache hcache, outcome_bind, outcome_call, outcome_pure, ok_bind]
    cases (x.computeResponse m user).outcome <;> rfl

/-- The authenticated run of a matched query that protects nothing. -/
theorem securedRun_eq (hpolicy : x.rlsPolicy = none)
    (hfields : ∀ t ∈ x.schema.types, ∀ f ∈ t.fields, f.requiresScope = none)
    (hrole : m.queryDef.requiresRole = none) (hinject : m.queryDef.injectParams = [])
    (hmiss : m.queryDef.relay = false → ∀ cache, x.activeCache = some cache →
      cache.get (x.responseCacheKey m user) = none) :
    (if m.queryDef.relay then x.executeRelayQuery m vars (some user) else x.executeCached m user).outcome =
      (executeMatched x vars m).outcome := by
  unfold executeMatched
  rw [hrole, hinject]
  simp only [isSome_none, isEmpty_nil, Bool.not_true, Bool.false_eq_true, if_false]
  cases hrelay : m.queryDef.relay with
  | true =>
    simp only [if_true]
    unfold executeRelayQuery
    rw [relayPlan_eq hpolicy hinject]
  | false =>
    simp only [Bool.false_eq_true, if_false]
    rw [executeCached_outcome (hmiss hrelay)]
    simp only [computeResponse, outcome_bind, outcome_lift, liftM_eq,
      outcome_pure, securedRequest_eq hpolicy hinject, securedResponse_eq hfields]

theorem hasRequiredRole_open (hrole : m.queryDef.requiresRole = none) : hasRequiredRole m.queryDef user = true := by
  rw [hasRequiredRole, hrole]
  rfl

/-- Every response of a matched query is under the name of its definition. -/
theorem executeMatched_envelope {response : Json} (h : (executeMatched x vars m).outcome = .ok response) :
    ∃ value, response = wrapInDataEnvelope value m.queryDef.name := by
  unfold executeMatched at h
  split_ifs at h with hrole hinject hrelay
  · cases h
  · cases h
  · simp only [executeRelayQuery, outcome_bind, outcome_lift, bind_eq_ok,
      liftM_eq, relayResponse, pure_eq_ok] at h
    obtain ⟨_, _, _, _, _, _, hresponse⟩ := h
    exact ⟨_, hresponse.symm⟩
  · simp only [outcome_bind, outcome_pure, bind_eq_ok] at h
    obtain ⟨_, _, _, _, hresponse⟩ := h
    exact ⟨_, (ok.inj hresponse).symm⟩

end Regular

/-! ### Mutations -/

section Mutations

variable {x : Executor} {lib : Library} {s : MutationSchema} {user : SecurityContext} {name : String}
  {vars : Option Json} {typeSelections : TypeSelections}

theorem findMutation_mem {mutations : List MutationDefinition} {m : MutationDefinition}
    (h : findMutation lib mutations name = some m) : m ∈ mutations := by
  have hindexed : ∀ key, indexedMutation lib mutations key = some m → m ∈ mutations := by
    intro key hkey
    exact mem_reverse.mp (mem_of_find?_eq_some hkey)
  unfold findMutation at h
  rcases or_eq_some_iff.mp h with hfirst | ⟨_, hsecond⟩
  · exact hindexed _ hfirst
  · exact hindexed _ hsecond

theorem mutationArguments_eq {m : MutationDefinition} (hinject : m.injectParams = []) (ctx : Option SecurityContext) :
    mutationArguments s.inputTypes m name vars ctx = mutationArguments s.inputTypes m name vars none := by
  unfold mutationArguments
  rw [hinject]
  rfl

/-- A mutation without injected parameters is the same with a user, once the session variables are set. -/
theorem mutation_outcome_eq (hinject : ∀ m ∈ s.mutations, m.injectParams = [])
    (hsession : (setMutationSessionVariables x (some user)).outcome = .ok ()) :
    (executeMutationQueryWithSecurity x lib s name vars (some user) typeSelections).outcome =
      (executeMutationQueryWithSecurity x lib s name vars none typeSelections).outcome := by
  have hnone : (setMutationSessionVariables x none).outcome = .ok () := rfl
  unfold executeMutationQueryWithSecurity
  simp only [outcome_bind, outcome_lift, hsession, hnone, ok_bind]
  cases hfind : findMutation lib s.mutations name with
  | none => rfl
  | some m =>
    have hm := hinject m (findMutation_mem hfind)
    show (okOr m.functionName _ >>= _) = (okOr m.functionName _ >>= _)
    simp only [mutationArguments_eq hm (some user)]

theorem mutation_envelope {ctx : Option SecurityContext} {response : Json}
    (h : (executeMutationQueryWithSecurity x lib s name vars ctx typeSelections).outcome = .ok response) :
    ∃ value, response = wrapInDataEnvelope value name := by
  simp only [executeMutationQueryWithSecurity, outcome_bind, outcome_lift, outcome_pure,
    bind_eq_ok] at h
  obtain ⟨_, _, _, _, _, _, _, _, _, _, _, _, value, _, hresponse⟩ := h
  exact ⟨value, (ok.inj hresponse).symm⟩

end Mutations

namespace Dispatcher

/-! ### Special roots -/

section Special

variable {x : Dispatcher} {query : String} {vars : Option Json} {regular : Dispatched Json}
  {mutate : String → TypeSelections → Dispatched Json} {response : Json}

variable {name : String}

theorem executeAggregateDispatch_envelope (h : (x.executeAggregateDispatch name vars).outcome = .ok response) :
    ∃ value, response = wrapInDataEnvelope value name := by
  simp only [executeAggregateDispatch, executeAggregateQuery, outcome_bind, outcome_pure,
    bind_eq_ok] at h
  obtain ⟨_, _, _, _, _, _, _, _, _, _, hresponse⟩ := h
  exact ⟨_, (ok.inj hresponse).symm⟩

theorem executeWindowDispatch_envelope (h : (x.executeWindowDispatch name vars).outcome = .ok response) :
    ∃ value, response = wrapInDataEnvelope value name := by
  simp only [executeWindowDispatch, executeWindowQuery, outcome_bind, outcome_pure,
    bind_eq_ok] at h
  obtain ⟨_, _, _, _, _, _, _, _, _, _, hresponse⟩ := h
  exact ⟨_, (ok.inj hresponse).symm⟩

theorem executeFederationQuery_envelope (h : (x.executeFederationQuery name query vars).outcome = .ok response) :
    ∃ value, response = wrapInDataEnvelope value name := by
  unfold executeFederationQuery at h
  cases hfederation : x.federation with
  | none =>
    rw [hfederation] at h
    cases h
  | some federation =>
    rw [hfederation] at h
    simp only [outcome_lift, map_eq_ok] at h
    obtain ⟨value, _, hresponse⟩ := h
    exact ⟨value, hresponse.symm⟩

theorem executeNodeQuery_envelope {selections : List ParsedSelection}
    (h : (x.executeNodeQuery query vars selections).outcome = .ok response) :
    ∃ value, response = wrapInDataEnvelope value "node" := by
  simp only [executeNodeQuery, outcome_bind, outcome_pure, bind_eq_ok] at h
  obtain ⟨_, _, _, _, hresponse⟩ := h
  exact ⟨_, (ok.inj hresponse).symm⟩

/-- The key that a special root is answered under. -/
def answerKey : QueryType → Option String
  | .regular | .mutation _ _ => none
  | .aggregate queryName => some queryName
  | .window queryName => some queryName
  | .federation queryName => some queryName
  | .introspectionSchema => some "__schema"
  | .introspectionType _ => some "__type"
  | .nodeQuery _ => some "node"

theorem route_envelope {kind : QueryType} {key : String} (hkey : answerKey kind = some key)
    (h : (x.route query vars regular mutate kind).outcome = .ok response) :
    ∃ value, response = wrapInDataEnvelope value key := by
  cases kind with
  | regular => cases hkey
  | mutation name typeSelections => cases hkey
  | aggregate queryName =>
    obtain rfl := some.inj hkey
    exact executeAggregateDispatch_envelope h
  | window queryName =>
    obtain rfl := some.inj hkey
    exact executeWindowDispatch_envelope h
  | federation queryName =>
    obtain rfl := some.inj hkey
    exact executeFederationQuery_envelope h
  | introspectionSchema | introspectionType typeName =>
    obtain rfl := some.inj hkey
    exact ⟨_, (ok.inj h).symm⟩
  | nodeQuery selections =>
    obtain rfl := some.inj hkey
    exact executeNodeQuery_envelope h

/-- The handlers of special roots are the same for both entry points. -/
theorem route_eq {kind : QueryType} {key : String} (hkey : answerKey kind = some key)
    (regular' : Dispatched Json) (mutate' : String → TypeSelections → Dispatched Json) :
    x.route query vars regular mutate kind = x.route query vars regular' mutate' kind := by
  cases kind with
  | regular => cases hkey
  | mutation name typeSelections => cases hkey
  | aggregate queryName => rfl
  | window queryName => rfl
  | federation queryName => rfl
  | introspectionSchema => rfl
  | introspectionType typeName => rfl
  | nodeQuery selections => rfl

/-- Special roots and mutations are answered under the name of the first root. -/
theorem classifyParsed_key (operation : OperationKind) (parsed : ParsedQuery) :
    classifyParsed operation parsed = .regular ∨
    (∃ typeSelections, classifyParsed operation parsed = .mutation parsed.rootField typeSelections) ∨
    answerKey (classifyParsed operation parsed) = some parsed.rootField := by
  unfold classifyParsed
  dsimp only
  split_ifs with hschema htype hfederation hnode hmutation haggregate hwindow
  · exact .inr (.inr (congrArg some hschema.symm))
  · exact .inr (.inr (congrArg some htype.symm))
  · exact .inr (.inr rfl)
  · exact .inr (.inr (congrArg some hnode.2.symm))
  · exact .inr (.inl ⟨_, rfl⟩)
  · exact .inr (.inr rfl)
  · exact .inr (.inr rfl)
  · exact .inl rfl

end Special

/-! ### Agreement -/

section Agreement

variable {x : Dispatcher} {query : String} {vars : Option Json} {user : SecurityContext} {parsed : ParsedQuery}

theorem coversRoots_envelope {name : String} {value : Json}
    (hkeys : ∀ key, RootKey x.lib vars parsed.fragments parsed.selections key ↔ key = name) :
    x.CoversRoots parsed vars (wrapInDataEnvelope value name) := by
  refine ⟨[(name, value)], rfl, nodup_singleton name, ?_⟩
  intro key
  rw [hkeys key]
  exact mem_singleton

theorem sameAnswer_of_eq {a b : Except FraiseQLError Json} (h : a = b) : SameAnswer a b := by
  rw [h]
  cases b with
  | ok response => exact .inl ⟨response, rfl, rfl⟩
  | error e => exact .inr ⟨rfl, rfl⟩

theorem classifyQueryWithParse_eq (hparse : parseQuery x.lib query = .ok parsed) :
    ∃ maybeParsed, x.classifyQueryWithParse query =
        .ok (classifyParsed (x.operationKind query) parsed, maybeParsed) ∧
      (classifyParsed (x.operationKind query) parsed = .regular → maybeParsed = some parsed) := by
  unfold classifyQueryWithParse
  rw [hparse]
  simp only [Except.mapError, ok_bind]
  cases classifyParsed (x.operationKind query) parsed with
  | regular => exact ⟨some parsed, rfl, fun _ => rfl⟩
  | _ => exact ⟨none, rfl, nofun⟩

theorem cachedClassification_eq (hcache : ∀ pair, x.parseCache (x.queryHash query) = some pair →
    x.classifyQueryWithParse query = .ok pair) : x.cachedClassification query = x.classifyQueryWithParse query := by
  unfold cachedClassification
  cases hentry : x.parseCache (x.queryHash query) with
  | none => rfl
  | some pair => exact (hcache pair hentry).symm

theorem execute_outcome (h : x.Answered query vars user) : (x.execute query vars).outcome =
    x.classifyQueryWithParse query >>= fun pair =>
      (x.route query vars (ofRead (x.executeRegular query vars pair.2))
        (fun name typeSelections => executeMutationQuery x.base x.lib x.mutations name vars typeSelections)
        pair.1).outcome := by
  simp only [execute, executeInternal, outcome_bind, outcome_lift, h.valid, ok_bind,
    cachedClassification_eq h.parseCache]

theorem executeWithSecurity_outcome : (x.executeWithSecurity query vars user).outcome =
    x.classifyQueryWithParse query >>= fun pair =>
      (x.route query vars (ofRead (x.matched.executeRegularQueryWithSecurity query vars user))
        (fun name typeSelections =>
          executeMutationQueryWithSecurity x.base x.lib x.mutations name vars (some user) typeSelections)
        pair.1).outcome := by
  simp only [executeWithSecurity, classifyQuery, outcome_bind, outcome_lift]
  cases x.classifyQueryWithParse query <;> rfl

theorem session_regular (h : x.SessionAccepted user) : (x.matched.injectSessionVariables user).outcome = .ok () := by
  unfold injectSessionVariables
  dsimp only
  split_ifs with hempty
  · rfl
  · apply h
    by_contra hnone
    rw [not_or, not_not] at hnone
    apply hempty
    show (resolveSessionVariables x.base.schema.sessionVariables user x.base.nowText).isEmpty = true
    rw [resolveSessionVariables, hnone.1, if_neg hnone.2]
    rfl

theorem session_mutation (h : x.SessionAccepted user) :
    (setMutationSessionVariables x.base (some user)).outcome = .ok () := by
  unfold setMutationSessionVariables
  dsimp only
  split_ifs with hnone
  · rfl
  · apply h
    by_contra hother
    rw [not_or, not_not, Bool.not_eq_true] at hother
    apply hnone
    rw [hother.1, hother.2]
    rfl

theorem findQuery_mem {lib : Library} {queries : List QueryDefinition} {name : String} {d : QueryDefinition}
    (h : lib.findQuery queries name = some d) : d ∈ queries := by
  have hindexed : ∀ key, lib.indexedQuery queries key = some d → d ∈ queries := by
    intro key hkey
    exact mem_reverse.mp (mem_of_find?_eq_some hkey)
  unfold Library.findQuery at h
  rcases or_eq_some_iff.mp h with hfirst | ⟨_, hsecond⟩
  · exact hindexed _ hfirst
  · exact hindexed _ hsecond

/-- A match is of the definition that the first root names. -/
theorem matchQuery_def {m : QueryMatch} (hparse : parseQuery x.lib query = .ok parsed)
    (hmatch : matchQuery x.lib x.base.schema query vars = .ok m) :
    x.lib.findQuery x.base.schema.queries parsed.rootField = some m.queryDef := by
  unfold matchQuery at hmatch
  rw [hparse] at hmatch
  simp only [Except.mapError, ok_bind, matchParsed, bind_eq_ok, pure_eq_ok, okOr] at hmatch
  obtain ⟨_, _, d, hd, rfl⟩ := hmatch
  cases hfind : x.lib.findQuery x.base.schema.queries parsed.rootField with
  | none =>
    rw [hfind] at hd
    cases hd
  | some found =>
    rw [hfind] at hd
    exact congrArg some (ok.inj hd)

/-- A regular query with a single root. -/
theorem regular_outcome_eq (hopen : x.Unprotected) (hparse : parseQuery x.lib query = .ok parsed)
    (h : x.RegularAnswered query vars user parsed) :
    (x.matched.executeRegularQueryWithSecurity query vars user).outcome =
      (x.executeRegular query vars (some parsed)).outcome := by
  have hnow : user.isExpired x.matched.now = false := h.unexpired
  unfold executeRegular executeRegularQueryWithSecurity
  simp only [hnow, Bool.false_eq_true, if_false, Nat.not_lt.mpr h.single, executeRegularQuery_eq, outcome_bind,
    outcome_lift]
  have hmatcher : x.matched.matcher query vars = matchQuery x.lib x.base.schema query vars := rfl
  rw [hmatcher]
  cases hmatch : matchQuery x.lib x.base.schema query vars with
  | error e => rfl
  | ok m =>
    obtain ⟨hrole, hinject⟩ := hopen.queries m.queryDef (findQuery_mem (matchQuery_def hparse hmatch))
    have hrun := @securedRun_eq x.matched m user vars hopen.policy hopen.fields hrole hinject
      fun hrelay cache hcache => h.notCached cache m hcache hmatch hrelay
    simp only [ok_bind, hasRequiredRole_open hrole, Bool.not_true, Bool.false_eq_true, if_false,
      outcome_bind, session_regular h.session]
    exact hrun

theorem executeRegular_envelope {response : Json} (hparse : parseQuery x.lib query = .ok parsed)
    (hsingle : parsed.selections.length ≤ 1)
    (h : (x.executeRegular query vars (some parsed)).outcome = .ok response) :
    ∃ d value, x.lib.findQuery x.base.schema.queries parsed.rootField = some d ∧
      response = wrapInDataEnvelope value d.name := by
  unfold executeRegular at h
  simp only [Nat.not_lt.mpr hsingle, if_false, executeRegularQuery_eq, outcome_bind, outcome_lift,
    bind_eq_ok] at h
  obtain ⟨m, hmatch, hrun⟩ := h
  obtain ⟨value, hresponse⟩ := executeMatched_envelope hrun
  exact ⟨m.queryDef, value, matchQuery_def hparse hmatch, hresponse⟩

end Agreement

/-- The field `id` of a root. -/
def rootSelecting (name : Name) : Selection := .field none name [] [] [.field none ⟨"id", .refl true⟩ [] [] []]

/-- The parser, on the texts that are met here. -/
def rootsLibrary : Library where
  parseDocument := fun text =>
    let users := rootSelecting ⟨"users", .refl true⟩
    let posts := rootSelecting ⟨"posts", .refl true⟩
    if text = "\x7b users \x7b id \x7d \x7d" then .ok ⟨[.operation [users]]⟩
    else if text = "\x7b posts \x7b id \x7d \x7d" then .ok ⟨[.operation [posts]]⟩
    else if text = "\x7b users \x7b id \x7d posts \x7b id \x7d \x7d" then .ok ⟨[.operation [users, posts]]⟩
    else .error "unexpected text"
  fromStr := fun _ => none
  isUppercase := Char.isUpper
  isLowercase := Char.isLower
  camelCase := false

def openQuery (name returnType view : String) : QueryDefinition :=
  ⟨name, returnType, true, [], some view, ⟨false, false, false, false⟩, false, none, .int64, [], none, []⟩

/-- Users and posts that anyone may read, one row in each view. -/
def openDispatcher : Dispatcher :=
  .ofQueries {
    schema := ⟨[], [openQuery "users" "User" "v_user", openQuery "posts" "Post" "v_post"], none, ⟨[], false⟩⟩
    matcher := fun _ _ => .error noSqlSource
    defaultStrategy := .project
    rlsPolicy := none
    responseCache := none
    adapter := ⟨.postgresql, fun _ => .ok (), fun _ => .ok [.obj [("id", .str "1")]], fun _ => .ok []⟩
    relay := none
    base64 := ⟨id, some⟩
    parseJson := fun _ => none
    charCase := .ascii
    hasher := fun _ => 0
    now := 0
    nowText := "" } rootsLibrary

theorem openDispatcher_unprotected : openDispatcher.Unprotected where
  policy := rfl
  queries := by decide
  fields := nofun
  mutations := nofun

def reader : SecurityContext := ⟨"ada", [], none, [], [], "r1", none, 0, 3600, none, none⟩

theorem findQuery_users : ∀ d, rootsLibrary.findQuery openDispatcher.base.schema.queries "users" = some d →
    d.name = "users" := by
  have hfound : rootsLibrary.findQuery openDispatcher.base.schema.queries "users" =
      some (openQuery "users" "User" "v_user") := by decide
  intro d hd
  rw [hfound] at hd
  rw [← some.inj hd]
  rfl

end Dispatcher

end FraiseQL
