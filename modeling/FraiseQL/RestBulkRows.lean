import FraiseQL.RestBulk
import FraiseQL.RestWriteAgreement

/-! Which rows a bulk write touches. The mutation runs once and gets nothing of the request or the rows, so the rows
that satisfy the parameters are touched only when the mutation does not run, or when there is one such row and its
identifier is what the mutation gets anyway. -/

namespace FraiseQL

/-! ### The mutation -/

namespace Dispatcher

open Outcome

/-- How the entry point for a user, or for none, classifies a text. -/
def classified (x : Dispatcher) (query : String) (ctx : Option SecurityContext) : Except FraiseQLError QueryType :=
  match ctx with
  | some _ => x.classifyQuery query
  | none => do
    x.validateQuery query
    (x.cachedClassification query).map Prod.fst

/-- A text that is classified is classified as a mutation of a name. -/
def ReadsMutation (x : Dispatcher) (query mutationName : String) (ctx : Option SecurityContext) : Prop :=
  ∀ kind, x.classified query ctx = .ok kind → ∃ sel, kind = .mutation mutationName sel

/-- A text runs a mutation, whose function is called with some arguments. -/
structure Invokes (x : Dispatcher) (query mutationName : String) (ctx : Option SecurityContext)
    (m : MutationDefinition) (sel : TypeSelections) (f : String) (args : List Json) : Prop where
  classified : x.classified query ctx = .ok (.mutation mutationName sel)
  supported : ctx = none → x.mutations.supportsMutations = true
  found : findMutation x.lib x.mutations.mutations mutationName = some m
  function : m.functionName = some f
  arguments : mutationArguments x.mutations.inputTypes m mutationName none ctx = .ok args
  session : SessionSet x.base ctx

variable {x : Dispatcher} {mutationName : String} {arguments : Json} {ctx : Option SecurityContext}
  {sel : TypeSelections}

/-- A text read as a mutation runs it without variables, where mutations are supported. -/
theorem executeMutationWithSecurity_eq
    (hkind : x.classified (mutationText mutationName arguments) ctx = .ok (.mutation mutationName sel))
    (hsupported : ctx = none → x.mutations.supportsMutations = true) :
    x.executeMutationWithSecurity mutationName arguments ctx =
      executeMutationQueryWithSecurity x.base x.lib x.mutations mutationName none ctx sel := by
  cases ctx with
  | some user =>
    unfold executeMutationWithSecurity executeWithSecurity
    rw [show x.classifyQuery (mutationText mutationName arguments) = .ok (.mutation mutationName sel) from hkind]
    rfl
  | none =>
    unfold classified at hkind
    obtain ⟨_, hvalid, hkind⟩ := bind_eq_ok.mp hkind
    obtain ⟨⟨kind, parsed⟩, hcached, rfl⟩ := map_eq_ok.mp hkind
    unfold executeMutationWithSecurity execute executeInternal
    rw [hvalid, hcached]
    show executeMutationQuery x.base x.lib x.mutations mutationName none sel = _
    unfold executeMutationQuery
    rw [if_pos (hsupported rfl)]

/-- A mutation that returns has found its definition, its function and its arguments. -/
theorem invokes_of_outcome {result : Json}
    (h : (executeMutationQueryWithSecurity x.base x.lib x.mutations mutationName none ctx sel).outcome = .ok result) :
    ∃ m f args rows, findMutation x.lib x.mutations.mutations mutationName = some m ∧ m.functionName = some f ∧
      mutationArguments x.mutations.inputTypes m mutationName none ctx = .ok args ∧ SessionSet x.base ctx ∧
      x.mutations.executeFunctionCall f args = .ok rows ∧
      ∃ row ∈ rows.head?, (x.mutations.respond m sel row).isOk = true := by
  unfold executeMutationQueryWithSecurity at h
  simp only [Traced.outcome_bind, Traced.outcome_lift, Traced.outcome_call, bind_eq_ok] at h
  obtain ⟨m, hm, f, hf, args, hargs, _, hset, rows, hrows, row, hrow, value, hvalue, -⟩ := h
  refine ⟨m, f, args, rows, okOr_eq_ok.mp hm, okOr_eq_ok.mp hf, hargs, isOk_iff.mpr ⟨_, hset⟩, hrows, row,
    okOr_eq_ok.mp hrow, isOk_iff.mpr ⟨value, hvalue⟩⟩

theorem classified_error {e : FraiseQLError}
    (h : x.classified (mutationText mutationName arguments) ctx = .error e) :
    x.executeMutationWithSecurity mutationName arguments ctx = .lift (.error e) := by
  cases ctx with
  | some user =>
    unfold executeMutationWithSecurity executeWithSecurity
    rw [show x.classifyQuery (mutationText mutationName arguments) = .error e from h]
    rfl
  | none =>
    unfold executeMutationWithSecurity execute executeInternal
    unfold classified at h
    cases hvalid : x.validateQuery (mutationText mutationName arguments) with
    | error e' =>
      rw [hvalid] at h
      cases h
      rfl
    | ok _ =>
      rw [hvalid] at h
      cases hcached : x.cachedClassification (mutationText mutationName arguments) with
      | ok pair =>
        rw [hcached] at h
        cases h
      | error e' =>
        rw [hcached] at h
        cases h
        rfl

/-- Nothing is called unless a function is invoked. -/
theorem not_invoked (hreads : x.ReadsMutation (mutationText mutationName arguments) mutationName ctx)
    (h : ∀ m sel f args, ¬ x.Invokes (mutationText mutationName arguments) mutationName ctx m sel f args) :
    (x.executeMutationWithSecurity mutationName arguments ctx).outcome.isOk = false ∧
      functionCalls (x.executeMutationWithSecurity mutationName arguments ctx).calls = [] := by
  cases hkind : x.classified (mutationText mutationName arguments) ctx with
  | error e =>
    rw [classified_error hkind]
    exact ⟨rfl, rfl⟩
  | ok kind =>
    obtain ⟨sel, rfl⟩ := hreads kind hkind
    by_cases hsupported : ctx = none → x.mutations.supportsMutations = true
    · rw [executeMutationWithSecurity_eq hkind hsupported]
      constructor
      · by_contra hok
        obtain ⟨result, hresult⟩ := isOk_iff.mp (Bool.eq_true_of_not_eq_false hok)
        obtain ⟨m, f, args, -, hm, hf, hargs, hset, -⟩ := invokes_of_outcome hresult
        exact h m sel f args ⟨hkind, hsupported, hm, hf, hargs, hset⟩
      · cases hm : findMutation x.lib x.mutations.mutations mutationName with
        | none =>
          unfold executeMutationQueryWithSecurity
          rw [hm]
          rfl
        | some m =>
          apply functionCalls_none hm
          by_contra hall
          obtain ⟨hf, hall⟩ := not_or.mp hall
          obtain ⟨hargs, hset⟩ := not_or.mp hall
          obtain ⟨f, hf⟩ := Option.ne_none_iff_exists'.mp hf
          obtain ⟨args, hargs⟩ := isOk_iff.mp (Bool.eq_true_of_not_eq_false hargs)
          exact h m sel f args ⟨hkind, hsupported, hm, hf, hargs, not_not.mp hset⟩
    · obtain ⟨rfl, hunsupported⟩ := Classical.not_imp.mp hsupported
      unfold classified at hkind
      obtain ⟨_, hvalid, hkind⟩ := bind_eq_ok.mp hkind
      obtain ⟨⟨kind, parsed⟩, hcached, rfl⟩ := map_eq_ok.mp hkind
      unfold executeMutationWithSecurity execute executeInternal
      rw [hvalid, hcached]
      show (executeMutationQuery x.base x.lib x.mutations mutationName none sel).outcome.isOk = false ∧
        functionCalls (executeMutationQuery x.base x.lib x.mutations mutationName none sel).calls = []
      unfold executeMutationQuery
      rw [if_neg hunsupported]
      exact ⟨rfl, rfl⟩

/-- An invoked function is called once. -/
theorem invoked {m : MutationDefinition} {f : String} {args : List Json}
    (h : x.Invokes (mutationText mutationName arguments) mutationName ctx m sel f args) :
    functionCalls (x.executeMutationWithSecurity mutationName arguments ctx).calls = [(f, args)] := by
  rw [executeMutationWithSecurity_eq h.classified h.supported]
  exact functionCalls_some h.found h.function h.arguments h.session

end Dispatcher

/-! ### The request -/

theorem functionCalls_ofRead {α : Type} (run : Exec α) : functionCalls (ofRead run).calls = [] := by
  apply List.filterMap_eq_nil_iff.mpr
  intro c hc
  obtain ⟨d, -, rfl⟩ := Traced.mem_calls_relabel.mp hc
  rfl

theorem functionCalls_append (as bs : List DispatchCall) :
    functionCalls (as ++ bs) = functionCalls as ++ functionCalls bs := List.filterMap_append

namespace Rest

theorem natText_inj {a b : Nat} (h : toString a = toString b) : a = b := by
  have hdigits : Nat.toDigits 10 a = Nat.toDigits 10 b := by
    rw [Nat.toString_eq_ofList_toDigits, Nat.toString_eq_ofList_toDigits] at h
    exact String.ofList_injective h
  rw [← Nat.ofDigitChars_ten_toDigits (n := a), hdigits, Nat.ofDigitChars_ten_toDigits]

theorem lookup_insertHeader (name value key : String) (headers : Headers) :
    (insertHeader name value headers).lookup key = if key = name then some value else headers.lookup key := by
  unfold insertHeader
  rw [List.lookup_append]
  by_cases heq : key = name
  · rw [if_pos heq, heq]
    have hnone : (headers.filter fun header => header.1 ≠ name).lookup name = none := by
      rw [List.lookup_eq_none_iff]
      intro p hp
      have hne := of_decide_eq_true (List.mem_filter.mp hp).2
      exact bne_iff_ne.mpr fun h => hne h.symm
    rw [hnone, List.lookup_cons_self]
    rfl
  · rw [if_neg heq]
    have hsame : (headers.filter fun header => header.1 ≠ name).lookup key = headers.lookup key := by
      induction headers with
      | nil => rfl
      | cons header headers ih =>
        by_cases hname : header.1 = name
        · rw [List.filter_cons_of_neg (by simpa using hname), ih, List.lookup_cons,
            beq_eq_false_iff_ne.mpr fun h => heq (h.trans hname)]
        · rw [List.filter_cons_of_pos (by simpa using hname), List.lookup_cons, List.lookup_cons, ih]
    rw [hsame, List.lookup_cons, beq_eq_false_iff_ne.mpr heq, List.lookup_nil, Option.or_none]

namespace BulkHandler

variable (h : BulkHandler) (request : BulkRequest) (ctx : Option SecurityContext)

/-- The response says how many rows the filter query returned. -/
theorem rowsAffected_header (result : BulkResult) (prefer : PreferHeader) (requestId : String) :
    (h.buildBulkResponse result prefer requestId).headers.lookup "x-rows-affected" =
      some (toString result.affectedRows) := by
  have happlied : ∀ prefs : List String, (if prefs.isEmpty then
      insertHeader "x-rows-affected" (toString result.affectedRows) (insertHeader "x-request-id" requestId [])
      else insertHeader "preference-applied" (String.intercalate ", " prefs) (insertHeader "x-rows-affected"
        (toString result.affectedRows) (insertHeader "x-request-id" requestId []))).lookup "x-rows-affected" =
      some (toString result.affectedRows) := by
    intro prefs
    split_ifs
    · rw [lookup_insertHeader, if_pos rfl]
    · rw [lookup_insertHeader, if_neg (by decide), lookup_insertHeader, if_pos rfl]
  unfold buildBulkResponse
  by_cases hrepresentation : prefer.returnRepresentation = true
  · rw [if_pos hrepresentation]
    exact happlied _
  · rw [if_neg hrepresentation]
    by_cases hminimal : prefer.returnMinimal = true
    · rw [if_pos hminimal]
      exact happlied _
    · rw [if_neg hminimal]
      by_cases hzero : result.affectedRows = 0
      · rw [if_pos hzero]
        exact happlied _
      · rw [if_neg hzero]
        exact happlied _

/-- No function is called, and the request fails. -/
def Refused : Prop :=
  (h.handleBulkFilterOperation request ctx).outcome.isOk = false ∧
    functionCalls (h.handleBulkFilterOperation request ctx).calls = []

/-- The function of a mutation is called once for each identifier, with it. -/
def OncePerRow (m : MutationDefinition) (idField : String) (calls : List (String × List Json)) (ids : List Json) :
    Prop :=
  ∃ order, order.Perm ids ∧
    List.Forall₂ (fun call id => m.functionName = some call.1 ∧ Carries m idField id call.2) calls order

/-- A request is refused, or its where clause selects rows and the mutation is run for exactly those that satisfy the
parameters, within the limit, and their number is reported. -/
def TouchesFiltered (matching : List Json) : Prop :=
  h.Refused request ctx ∨ ∃ plan m response, h.plan request = .ok plan ∧
    findMutation h.executor.lib h.executor.mutations.mutations plan.mutationName = some m ∧
    plan.queryMatch.arguments ≠ [] ∧ (h.handleBulkFilterOperation request ctx).outcome = .ok response ∧
    OncePerRow m plan.idField (functionCalls (h.handleBulkFilterOperation request ctx).calls) matching ∧
    matching.length ≤ plan.maxAffected ∧
    response.headers.lookup "x-rows-affected" = some (toString matching.length)

variable {h request ctx}

theorem refused_of_plan {e : RestError} (hplan : h.plan request = .error e) : h.Refused request ctx := by
  unfold Refused handleBulkFilterOperation
  rw [hplan]
  exact ⟨rfl, rfl⟩

section Planned

variable {plan : BulkPlan}

section

variable (hplan : h.plan request = .ok plan)
include hplan

theorem calls_handle : (h.handleBulkFilterOperation request ctx).calls =
    (h.executor.executeBulkByFilter plan.queryMatch plan.mutationName (some request.body) plan.idField
      plan.maxAffected ctx).calls := by
  unfold handleBulkFilterOperation
  rw [hplan, Traced.calls_bind_ok rfl, Traced.calls_lift, List.nil_append]
  cases hrun : (h.executor.executeBulkByFilter plan.queryMatch plan.mutationName (some request.body) plan.idField
      plan.maxAffected ctx).outcome with
  | error e =>
    rw [Traced.calls_bind_error (e := RestError.ofError e)]
    · rfl
    · unfold Traced.mapError
      rw [hrun]
      rfl
  | ok result =>
    rw [Traced.calls_bind_ok (a := result)]
    · exact List.append_nil _
    · unfold Traced.mapError
      rw [hrun]
      rfl

theorem outcome_handle : (h.handleBulkFilterOperation request ctx).outcome =
    ((h.executor.executeBulkByFilter plan.queryMatch plan.mutationName (some request.body) plan.idField
      plan.maxAffected ctx).outcome.mapError RestError.ofError).map fun result =>
        h.buildBulkResponse result request.prefer request.requestId := by
  unfold handleBulkFilterOperation
  rw [hplan, Traced.outcome_bind]
  show (_ >>= _) = _
  rw [Traced.outcome_lift, Outcome.ok_bind, Traced.outcome_bind]
  unfold Traced.mapError
  cases (h.executor.executeBulkByFilter plan.queryMatch plan.mutationName (some request.body) plan.idField
    plan.maxAffected ctx).outcome <;> rfl

theorem refused_of_query {e : FraiseQLError}
    (hquery : (h.executor.base.executeQueryDirect plan.queryMatch ctx).outcome = .error e) :
    h.Refused request ctx := by
  unfold Refused
  rw [calls_handle hplan, outcome_handle hplan]
  unfold Dispatcher.executeBulkByFilter
  constructor
  · rw [Traced.outcome_bind]
    show ((((h.executor.base.executeQueryDirect plan.queryMatch ctx).outcome >>= _).mapError _).map _).isOk = false
    rw [hquery]
    rfl
  · have hread : (ofRead (h.executor.base.executeQueryDirect plan.queryMatch ctx)).outcome = .error e := hquery
    rw [Traced.calls_bind_error hread]
    exact functionCalls_ofRead _

theorem functionCalls_handle {rows : Json}
    (hquery : (h.executor.base.executeQueryDirect plan.queryMatch ctx).outcome = .ok rows) :
    functionCalls (h.handleBulkFilterOperation request ctx).calls = functionCalls
      (h.executor.executeMutationWithSecurity plan.mutationName request.body ctx).calls := by
  have hread : (ofRead (h.executor.base.executeQueryDirect plan.queryMatch ctx)).outcome = .ok rows := hquery
  rw [calls_handle hplan]
  unfold Dispatcher.executeBulkByFilter
  rw [Traced.calls_bind_ok hread, functionCalls_append, functionCalls_ofRead, List.nil_append]
  show functionCalls (h.executor.executeMutationWithSecurity plan.mutationName request.body ctx >>= _).calls = _
  cases houtcome : (h.executor.executeMutationWithSecurity plan.mutationName request.body ctx).outcome with
  | error e => rw [Traced.calls_bind_error houtcome]
  | ok result => rw [Traced.calls_bind_ok houtcome, Traced.calls_pure, List.append_nil]

theorem outcome_handle_query {rows : Json}
    (hquery : (h.executor.base.executeQueryDirect plan.queryMatch ctx).outcome = .ok rows) :
    (h.handleBulkFilterOperation request ctx).outcome =
      ((h.executor.executeMutationWithSecurity plan.mutationName request.body ctx).outcome.mapError
        RestError.ofError).map fun result =>
          h.buildBulkResponse ⟨filteredCount rows, [result]⟩ request.prefer request.requestId := by
  rw [outcome_handle hplan]
  unfold Dispatcher.executeBulkByFilter
  rw [Traced.outcome_bind]
  show ((((h.executor.base.executeQueryDirect plan.queryMatch ctx).outcome >>= _).mapError _).map _) = _
  rw [hquery, Outcome.ok_bind, Traced.outcome_bind]
  show ((((h.executor.executeMutationWithSecurity plan.mutationName request.body ctx).outcome >>= _).mapError _).map _) =
    _
  cases (h.executor.executeMutationWithSecurity plan.mutationName request.body ctx).outcome <;> rfl

end

end Planned

/-- The function answers with a row that a response is made of. -/
def Answered (x : Dispatcher) (m : MutationDefinition) (sel : TypeSelections) (f : String) (args : List Json) : Prop :=
  ∃ row others, x.mutations.executeFunctionCall f args = .ok (row :: others) ∧
    (x.mutations.respond m sel row).isOk = true

theorem outcome_invoked {x : Dispatcher} {mutationName : String} {arguments : Json} {m : MutationDefinition}
    {sel : TypeSelections} {f : String} {args : List Json}
    (h : x.Invokes (mutationText mutationName arguments) mutationName ctx m sel f args) :
    (x.executeMutationWithSecurity mutationName arguments ctx).outcome.isOk = true ↔ Answered x m sel f args := by
  rw [Dispatcher.executeMutationWithSecurity_eq h.classified h.supported]
  constructor
  · intro hok
    obtain ⟨result, hresult⟩ := Outcome.isOk_iff.mp hok
    obtain ⟨m', f', args', rows, hm, hf, hargs, -, hrows, row, hrow, hrespond⟩ :=
      Dispatcher.invokes_of_outcome hresult
    obtain rfl : m = m' := Option.some.inj (h.found.symm.trans hm)
    obtain rfl : f = f' := Option.some.inj (h.function.symm.trans hf)
    obtain rfl : args = args' := Except.ok.inj (h.arguments.symm.trans hargs)
    cases rows with
    | nil => cases hrow
    | cons first others =>
      obtain rfl : first = row := Option.some.inj hrow
      exact ⟨first, others, hrows, hrespond⟩
  · rintro ⟨row, others, hrows, hrespond⟩
    obtain ⟨value, hvalue⟩ := Outcome.isOk_iff.mp hrespond
    obtain ⟨u, hset⟩ := Outcome.isOk_iff.mp h.session
    refine Outcome.isOk_iff.mpr ⟨ResultProjector.wrapInDataEnvelope value mutationName, ?_⟩
    unfold executeMutationQueryWithSecurity
    simp only [Traced.outcome_bind, Traced.outcome_lift, Traced.outcome_call, Outcome.bind_eq_ok]
    exact ⟨m, okOr_eq_ok.mpr h.found, f, okOr_eq_ok.mpr h.function, args, h.arguments, u, hset, _, hrows, row,
      okOr_eq_ok.mpr rfl, value, hvalue, rfl⟩

theorem oncePerRow_one {m : MutationDefinition} {idField f : String} {args ids : List Json}
    (hf : m.functionName = some f) :
    OncePerRow m idField [(f, args)] ids ↔ ∃ id, ids = [id] ∧ Carries m idField id args := by
  constructor
  · rintro ⟨order, hperm, hcalls⟩
    cases hcalls with
    | cons hcall hrest =>
      cases hrest
      exact ⟨_, List.perm_singleton.mp hperm.symm, hcall.2⟩
  · rintro ⟨id, rfl, hid⟩
    exact ⟨[id], List.Perm.refl _, List.Forall₂.cons ⟨hf, hid⟩ List.Forall₂.nil⟩

/-- A bulk write touches the rows that satisfy its parameters exactly when it is refused before the mutation, or
there is one such row, a where clause selects one row, and the mutation gets its identifier without being told. -/
theorem touches_filtered_iff
    (hreads : ∀ plan, h.plan request = .ok plan →
      h.executor.ReadsMutation (mutationText plan.mutationName request.body) plan.mutationName ctx)
    (matching : List Json) :
    h.TouchesFiltered request ctx matching ↔ ∀ plan rows m sel f args, h.plan request = .ok plan →
      (h.executor.base.executeQueryDirect plan.queryMatch ctx).outcome = .ok rows →
      h.executor.Invokes (mutationText plan.mutationName request.body) plan.mutationName ctx m sel f args →
      plan.queryMatch.arguments ≠ [] ∧ (∃ id, matching = [id] ∧ Carries m plan.idField id args) ∧
      1 ≤ plan.maxAffected ∧ filteredCount rows = 1 ∧ Answered h.executor m sel f args := by
  constructor
  · rintro htouches plan rows m sel f args hplan hquery hinvokes
    have hcalls : functionCalls (h.handleBulkFilterOperation request ctx).calls = [(f, args)] := by
      rw [functionCalls_handle hplan hquery]
      exact Dispatcher.invoked hinvokes
    rcases htouches with hrefused | ⟨plan', m', response, hplan', hm, hwhere, houtcome, honce, hmax, hheader⟩
    · rw [hrefused.2] at hcalls
      cases hcalls
    · obtain rfl : plan = plan' := Except.ok.inj (hplan.symm.trans hplan')
      obtain rfl : m = m' := Option.some.inj (hinvokes.found.symm.trans hm)
      rw [hcalls] at honce
      obtain ⟨id, rfl, hid⟩ := (oncePerRow_one hinvokes.function).mp honce
      rw [outcome_handle_query hplan hquery] at houtcome
      cases hresult : (h.executor.executeMutationWithSecurity plan.mutationName request.body ctx).outcome with
      | error e =>
        rw [hresult] at houtcome
        cases houtcome
      | ok result =>
        rw [hresult] at houtcome
        have hresponse := Except.ok.inj houtcome
        rw [← hresponse, rowsAffected_header] at hheader
        refine ⟨hwhere, ⟨id, rfl, hid⟩, hmax, ?_, (outcome_invoked hinvokes).mp ?_⟩
        · exact natText_inj (Option.some.inj hheader)
        · rw [hresult]
          rfl
  · intro hcond
    cases hplan : h.plan request with
    | error e => exact .inl (refused_of_plan hplan)
    | ok plan =>
      cases hquery : (h.executor.base.executeQueryDirect plan.queryMatch ctx).outcome with
      | error e => exact .inl (refused_of_query hplan hquery)
      | ok rows =>
        by_cases hinvokes : ∃ m sel f args, h.executor.Invokes
            (mutationText plan.mutationName request.body) plan.mutationName ctx m sel f args
        · obtain ⟨m, sel, f, args, hinvokes⟩ := hinvokes
          obtain ⟨hwhere, ⟨id, rfl, hid⟩, hmax, hcount, hanswered⟩ :=
            hcond plan rows m sel f args hplan hquery hinvokes
          obtain ⟨result, hresult⟩ := Outcome.isOk_iff.mp ((outcome_invoked hinvokes).mpr hanswered)
          refine .inr ⟨plan, m, h.buildBulkResponse ⟨filteredCount rows, [result]⟩ request.prefer
            request.requestId, hplan, hinvokes.found, hwhere, ?_, ?_, hmax, ?_⟩
          · rw [outcome_handle_query hplan hquery, hresult]
            rfl
          · rw [functionCalls_handle hplan hquery, Dispatcher.invoked hinvokes]
            exact (oncePerRow_one hinvokes.function).mpr ⟨id, rfl, hid⟩
          · rw [rowsAffected_header, hcount]
            rfl
        · obtain ⟨hfails, hsilent⟩ := Dispatcher.not_invoked (hreads plan hplan)
            fun m sel f args hone => hinvokes ⟨m, sel, f, args, hone⟩
          refine .inl ⟨?_, ?_⟩
          · rw [outcome_handle_query hplan hquery]
            cases hresult : (h.executor.executeMutationWithSecurity plan.mutationName request.body ctx).outcome with
            | error e => rfl
            | ok result =>
              rw [hresult] at hfails
              cases hfails
          · rw [functionCalls_handle hplan hquery]
            exact hsilent

/-! ### Users by name -/

/-- `mutation { deleteUser { … } }` and `mutation { renameUser(name: "Ada") { … } }`. -/
def bulkLibrary : Graphql.Library where
  parseDocument := fun text =>
    if text = "mutation \x7b deleteUser \x7b status entity_id message \x7d \x7d" then
      .ok (writtenField ⟨"deleteUser", .refl true⟩ [])
    else if text = "mutation \x7b renameUser(name: \"Ada\") \x7b status entity_id message \x7d \x7d" then
      .ok (writtenField ⟨"renameUser", .refl true⟩ [(⟨"name", .refl true⟩, .string "Ada")])
    else .error "unexpected text"
  fromStr := fun _ => none
  isUppercase := Char.isUpper
  isLowercase := Char.isLower
  camelCase := false

def usersQuery : QueryDefinition where
  name := "users"
  returnType := "User"
  returnsList := true
  arguments := []
  sqlSource := some "v_user"
  autoParams := ⟨true, true, true, true⟩
  relay := false
  relayCursorColumn := none
  relayCursorType := .int64
  injectParams := []
  requiresRole := none
  nativeColumns := []

/-- A mutation whose identifier may be null. -/
def deleteUser : MutationDefinition where
  name := "deleteUser"
  returnType := "User"
  arguments := [⟨"id", .int, true, none⟩]
  operation := .delete "tb_user"
  sqlSource := some "fn_delete_user"
  injectParams := []

/-- Two users, whatever the filter. -/
def bulkDispatcher : Dispatcher :=
  { Dispatcher.ofQueries { plainExecutor with
      schema := ⟨[], [usersQuery], none, ⟨[], false⟩⟩
      adapter := ⟨.postgresql, fun _ => .ok (), fun _ => .ok [.obj [("id", .ofNat 1)], .obj [("id", .ofNat 2)]],
        fun _ => .ok []⟩ } bulkLibrary with
    operationKind := fun _ => .mutation
    mutations := ⟨[renameUser, deleteUser], [], true, fun _ _ => .ok [.obj []], fun _ _ row => .ok row⟩ }

def usersHandler : BulkHandler where
  executor := bulkDispatcher
  types := [⟨"User", [⟨"id", none, .int⟩, ⟨"name", none, .string⟩]⟩]
  config := ⟨100, 20, 4096, 10000⟩
  table := [⟨"users", "User", some "id", [⟨.get, "/users", .query "users", 200⟩,
    ⟨.patch, "/users/\x7bid\x7d", .mutation "renameUser", 200⟩,
    ⟨.delete, "/users/\x7bid\x7d", .mutation "deleteUser", 204⟩]⟩]
  lib := ⟨fun _ => .error "unexpected text", fun _ => none, fun _ _ => .ok 0⟩

def noPreference : PreferHeader := ⟨false, false, false, none⟩

/-- `DELETE /users?search=ada`. -/
def searchDelete : BulkRequest := ⟨.delete, "/users", .obj [], [("search", "ada")], noPreference, "r1"⟩

/-- `PATCH /users?name=Ada` with a name. -/
def renameByName : BulkRequest :=
  ⟨.update, "/users", .obj [("name", .str "Ada")], [("name", "Ada")], noPreference, "r1"⟩

def searchPlan : BulkPlan := ⟨"deleteUser", "id", .fromOperation usersQuery ["id"] [] QueryMatch.sorted_nil, 10000⟩

theorem plan_searchDelete : usersHandler.plan searchDelete = .ok searchPlan := by
  rfl

theorem classified_searchDelete : ∃ sel, bulkDispatcher.classified
    (mutationText "deleteUser" (.obj [])) none = .ok (.mutation "deleteUser" sel) := ⟨_, rfl⟩

/-- A deletion by search has no where clause, reads every user, and calls the function once, with no identifier. -/
theorem search_deletes_blindly :
    (∀ plan, usersHandler.plan searchDelete = .ok plan →
      bulkDispatcher.ReadsMutation (mutationText plan.mutationName searchDelete.body) plan.mutationName none) ∧
    functionCalls (usersHandler.handleBulkFilterOperation searchDelete none).calls =
      [("fn_delete_user", [.null])] ∧
    ∀ matching, ¬ usersHandler.TouchesFiltered searchDelete none matching := by
  have hcalls : functionCalls (usersHandler.handleBulkFilterOperation searchDelete none).calls =
      [("fn_delete_user", [.null])] := by
    obtain ⟨sel, hkind⟩ := classified_searchDelete
    have hinvokes : bulkDispatcher.Invokes (mutationText "deleteUser" (.obj [])) "deleteUser" none deleteUser sel
        "fn_delete_user" [.null] := ⟨hkind, fun _ => rfl, rfl, rfl, rfl, rfl⟩
    rw [functionCalls_handle plan_searchDelete rfl]
    exact Dispatcher.invoked hinvokes
  refine ⟨?_, hcalls, ?_⟩
  · intro plan hplan kind hkind
    rw [plan_searchDelete] at hplan
    rw [← Except.ok.inj hplan] at hkind ⊢
    obtain ⟨sel, hsel⟩ := classified_searchDelete
    rw [show bulkDispatcher.classified (mutationText searchPlan.mutationName searchDelete.body) none =
      .ok (.mutation "deleteUser" sel) from hsel] at hkind
    exact ⟨sel, (Except.ok.inj hkind).symm⟩
  · intro matching htouches
    rcases htouches with ⟨-, hsilent⟩ | ⟨plan, m, response, hplan, -, hwhere, -⟩
    · rw [hcalls] at hsilent
      cases hsilent
    · rw [plan_searchDelete] at hplan
      rw [← Except.ok.inj hplan] at hwhere
      exact hwhere rfl

theorem plan_renameByName : ∃ plan, usersHandler.plan renameByName = .ok plan ∧ plan.mutationName = "renameUser" :=
  ⟨_, rfl, rfl⟩

theorem classified_renameByName : ∃ sel, bulkDispatcher.classified
    (mutationText "renameUser" renameByName.body) none = .ok (.mutation "renameUser" sel) := ⟨_, rfl⟩

/-- An update by name is refused for want of an identifier. -/
theorem rename_touches_filtered : usersHandler.TouchesFiltered renameByName none [.ofNat 1, .ofNat 2] := by
  obtain ⟨plan, hplan, hname⟩ := plan_renameByName
  obtain ⟨sel, hsel⟩ := classified_renameByName
  refine (touches_filtered_iff ?_ _).mpr ?_
  · intro plan' hplan' kind hkind
    rw [hplan] at hplan'
    rw [← Except.ok.inj hplan', hname] at hkind ⊢
    rw [show usersHandler.executor.classified (mutationText "renameUser" renameByName.body) none =
      .ok (.mutation "renameUser" sel) from hsel] at hkind
    exact ⟨sel, (Except.ok.inj hkind).symm⟩
  · intro plan' rows m sel' f args hplan' _ hinvokes
    rw [hplan] at hplan'
    rw [← Except.ok.inj hplan', hname] at hinvokes
    have hm : renameUser = m := Option.some.inj hinvokes.found
    have hargs := hinvokes.arguments
    rw [← hm] at hargs
    cases hargs

end BulkHandler

end Rest

end FraiseQL
