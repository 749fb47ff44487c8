import FraiseQL.ExecutorSecurity
import FraiseQL.RestWrite

/-! When a write with a user and one without call the same function with the same arguments. The user's write
passes no variables, so this is when a required argument is missing and nothing is called, or when every argument
has its default. -/

namespace FraiseQL

open Traced Graphql Dispatcher List Option

/-! ### Function calls -/

/-- The database functions that a run calls. -/
def functionCalls (calls : List DispatchCall) : List (String × List Json) :=
  calls.filterMap fun c =>
    match c with
    | .callFunction name arguments => some (name, arguments)
    | _ => none

section Mutations

variable {x : Executor} {lib : Graphql.Library} {s : MutationSchema} {mutationName : String} {vars : Option Json}
  {ctx : Option SecurityContext} {sel : TypeSelections} {m : MutationDefinition}

theorem functionCalls_session (x : Executor) (ctx : Option SecurityContext) :
    functionCalls (setMutationSessionVariables x ctx).calls = [] := by
  unfold setMutationSessionVariables
  cases ctx with
  | none => rfl
  | some user =>
    dsimp only
    split_ifs <;> rfl

/-- The session variables of a user can be set. -/
def SessionSet (x : Executor) (ctx : Option SecurityContext) : Prop :=
  (setMutationSessionVariables x ctx).outcome.isOk = true

/-- A mutation whose arguments are not made out calls no function. -/
theorem functionCalls_none (hm : findMutation lib s.mutations mutationName = some m)
    (h : m.functionName = none ∨ (mutationArguments s.inputTypes m mutationName vars ctx).isOk = false ∨
      ¬ SessionSet x ctx) :
    functionCalls (executeMutationQueryWithSecurity x lib s mutationName vars ctx sel).calls = [] := by
  unfold executeMutationQueryWithSecurity
  rw [hm]
  rw [calls_bind_ok (a := m) rfl]
  cases hf : m.functionName with
  | none =>
    rw [calls_bind_error rfl]
    rfl
  | some f =>
    rw [calls_bind_ok (a := f) rfl]
    cases hargs : mutationArguments s.inputTypes m mutationName vars ctx with
    | error e =>
      rw [calls_bind_error rfl]
      rfl
    | ok args =>
      rw [calls_bind_ok (a := args) rfl]
      rcases h with h | h | h
      · rw [hf] at h
        cases h
      · rw [hargs] at h
        cases h
      · cases hset : (setMutationSessionVariables x ctx).outcome with
        | ok _ => exact absurd (by unfold SessionSet; rw [hset]; rfl) h
        | error e =>
          rw [calls_bind_error hset]
          exact functionCalls_session x ctx

theorem functionCalls_some (hm : findMutation lib s.mutations mutationName = some m) {f : String} {args : List Json}
    (hf : m.functionName = some f) (hargs : mutationArguments s.inputTypes m mutationName vars ctx = .ok args)
    (hset : SessionSet x ctx) :
    functionCalls (executeMutationQueryWithSecurity x lib s mutationName vars ctx sel).calls = [(f, args)] := by
  obtain ⟨u, hset⟩ := Outcome.isOk_iff.mp hset
  have hsession := functionCalls_session x ctx
  unfold executeMutationQueryWithSecurity
  rw [hm, calls_bind_ok (a := m) rfl, hf, calls_bind_ok (a := f) rfl, hargs,
    calls_bind_ok (a := args) rfl, calls_bind_ok hset]
  have hcall : ∀ rest : List Json → Dispatched Json, (∀ rows, (rest rows).calls = []) →
      (call (.callFunction f args) (s.executeFunctionCall f args) >>= rest).calls = [.callFunction f args] := by
    intro rest hrest
    cases hrows : s.executeFunctionCall f args with
    | error e => rw [calls_bind_error rfl, calls_call]
    | ok rows => rw [calls_bind_ok (a := rows) rfl, calls_call, hrest, append_nil]
  rw [hcall]
  · show functionCalls ([] ++ ([] ++ ([] ++ ((setMutationSessionVariables x ctx).calls ++ _)))) = _
    simp only [functionCalls, filterMap_append, nil_append] at hsession ⊢
    rw [hsession]
    rfl
  · intro rows
    cases rows.head? with
    | none => rfl
    | some row =>
      rw [calls_bind_ok (a := row) rfl]
      cases s.respond m sel row <;> rfl

end Mutations

/-! ### Arguments without variables -/

section Arguments

variable (inputTypes : List InputObjectDefinition) (m : MutationDefinition)

/-- The input type of a mutation that takes one. -/
def inputType? : Option InputObjectDefinition :=
  m.inputTypeName.bind fun name => inputTypes.find? fun t => t.name = name

/-- The arguments are made of the object under `input`. -/
def takesInput : Bool := m.isUpdate && m.inputTypeName.isSome || (inputType? inputTypes m).isSome

/-- A request gives a mutation nothing that it would not have without it. -/
def Defaulted (vars : List (String × Json)) : Prop :=
  if takesInput inputTypes m then
    m.arguments.all ArgumentDefinition.nullable = true ∧
    ((Json.lookup "input" vars).bind Json.asObject? = none ∨
      m.isUpdate = false ∧ ∀ t, inputType? inputTypes m = some t → t.fields = [])
  else ∀ arg ∈ m.arguments, (arg.nullable = true ∨ arg.defaultValue.isSome = true) ∧
    ∀ value, Json.lookup arg.name vars = some value → value = arg.defaultValue.getD .null

variable {inputTypes m} {vars : List (String × Json)}

theorem inputTypeName_of_inputType {t : InputObjectDefinition} (h : inputType? inputTypes m = some t) :
    m.inputTypeName.isSome = true := by
  unfold inputType? at h
  cases hname : m.inputTypeName with
  | none =>
    rw [hname] at h
    cases h
  | some name => rfl

theorem clientArguments_update (hupdate : (m.isUpdate && m.inputTypeName.isSome) = true)
    (given : Option (List (String × Json))) :
    clientArguments inputTypes m given = inputArguments m given fun input => [.obj input] := by
  unfold clientArguments
  exact if_pos hupdate

theorem clientArguments_input (hupdate : (m.isUpdate && m.inputTypeName.isSome) = false) {t : InputObjectDefinition}
    (ht : inputType? inputTypes m = some t) (given : Option (List (String × Json))) :
    clientArguments inputTypes m given = inputArguments m given fun input =>
      t.fields.map fun field => (Json.lookup field input).getD .null := by
  unfold clientArguments
  unfold inputType? at ht
  simp only [hupdate, Bool.false_eq_true, if_false, ht]

theorem clientArguments_flat (h : takesInput inputTypes m = false) (given : Option (List (String × Json))) :
    clientArguments inputTypes m given = flatArguments m given := by
  obtain ⟨hupdate, hnone⟩ := Bool.or_eq_false_iff.mp h
  unfold clientArguments
  unfold inputType? at hnone
  simp only [hupdate, Bool.false_eq_true, if_false]
  cases hfind : (m.inputTypeName.bind fun name => inputTypes.find? fun t => t.name = name) with
  | none => rfl
  | some t =>
    rw [hfind] at hnone
    cases hnone

/-- How a mutation takes its arguments. -/
theorem clientArguments_cases (inputTypes : List InputObjectDefinition) (m : MutationDefinition) :
    (takesInput inputTypes m = true ∧ m.isUpdate = true ∧ ∀ given,
      clientArguments inputTypes m given = inputArguments m given fun input => [.obj input]) ∨
    (takesInput inputTypes m = true ∧ m.isUpdate = false ∧ ∃ t, inputType? inputTypes m = some t ∧ ∀ given,
      clientArguments inputTypes m given = inputArguments m given fun input =>
        t.fields.map fun field => (Json.lookup field input).getD .null) ∨
    (takesInput inputTypes m = false ∧ ∀ given, clientArguments inputTypes m given = flatArguments m given) := by
  cases hupdate : m.isUpdate && m.inputTypeName.isSome with
  | true =>
    refine .inl ⟨?_, (Bool.and_eq_true_iff.mp hupdate).1, clientArguments_update hupdate⟩
    unfold takesInput
    rw [hupdate]
    rfl
  | false =>
    cases ht : inputType? inputTypes m with
    | none =>
      have hflat : takesInput inputTypes m = false := by
        unfold takesInput
        rw [hupdate, ht]
        rfl
      exact .inr (.inr ⟨hflat, clientArguments_flat hflat⟩)
    | some t =>
      refine .inr (.inl ⟨?_, ?_, t, rfl, clientArguments_input hupdate ht⟩)
      · unfold takesInput
        rw [ht, hupdate]
        rfl
      · rw [inputTypeName_of_inputType ht, Bool.and_true] at hupdate
        exact hupdate

theorem missing_without (h : (clientArguments inputTypes m (some vars)).missing ≠ []) :
    (clientArguments inputTypes m none).missing ≠ [] := by
  have hinput : ∀ values, (inputArguments m (some vars) values).missing ≠ [] →
      (inputArguments m none values).missing ≠ [] := by
    intro values h
    unfold inputArguments at h ⊢
    cases hgiven : ((some vars).bind (Json.lookup "input")).bind Json.asObject? with
    | none =>
      rw [hgiven] at h
      exact h
    | some input =>
      rw [hgiven] at h
      exact absurd rfl h
  rcases clientArguments_cases inputTypes m with ⟨-, -, heq⟩ | ⟨-, -, t, -, heq⟩ | ⟨-, heq⟩
  · rw [heq] at h ⊢
    exact hinput _ h
  · rw [heq] at h ⊢
    exact hinput _ h
  · rw [heq] at h ⊢
    unfold flatArguments at h ⊢
    obtain ⟨name, hname⟩ := exists_mem_of_ne_nil _ h
    obtain ⟨arg, harg, -⟩ := mem_map.mp hname
    obtain ⟨hmem, hcond⟩ := mem_filter.mp harg
    simp only [Bool.and_eq_true] at hcond
    apply ne_nil_of_mem (a := arg.name)
    refine mem_map.mpr ⟨arg, mem_filter.mpr ⟨hmem, ?_⟩, rfl⟩
    simp [hcond.1.2, hcond.2]

theorem inputArguments_without (values : List (String × Json) → List Json) :
    ((inputArguments m none values).missing = [] ∧
      (inputArguments m none values).values = (inputArguments m (some vars) values).values) ↔
    m.arguments.all ArgumentDefinition.nullable = true ∧
      ∀ input, (Json.lookup "input" vars).bind Json.asObject? = some input → values input = [] := by
  have hnone : inputArguments m none values =
      ⟨[], if m.arguments.all ArgumentDefinition.nullable then [] else ["input"]⟩ := rfl
  have hmissing : (inputArguments m none values).missing = [] ↔
      m.arguments.all ArgumentDefinition.nullable = true := by
    rw [hnone]
    cases m.arguments.all ArgumentDefinition.nullable <;> simp
  have hvalues : (inputArguments m none values).values = (inputArguments m (some vars) values).values ↔
      ∀ input, (Json.lookup "input" vars).bind Json.asObject? = some input → values input = [] := by
    rw [hnone]
    unfold inputArguments
    rw [bind_some]
    cases (Json.lookup "input" vars).bind Json.asObject? with
    | none => exact ⟨fun _ _ h => (nomatch h), fun _ => rfl⟩
    | some input =>
      constructor
      · intro h input' hinput
        rw [← some.inj hinput]
        exact h.symm
      · intro h
        exact (h input rfl).symm
  rw [hmissing, hvalues]

theorem flatArguments_without :
    ((flatArguments m none).missing = [] ∧ (flatArguments m none).values = (flatArguments m (some vars)).values) ↔
    ∀ arg ∈ m.arguments, (arg.nullable = true ∨ arg.defaultValue.isSome = true) ∧
      ∀ value, Json.lookup arg.name vars = some value → value = arg.defaultValue.getD .null := by
  unfold flatArguments
  dsimp only
  rw [map_eq_nil_iff, filter_eq_nil_iff, map_inj_left, ← forall_and]
  apply forall_congr'
  intro arg
  rw [← imp_and]
  apply imp_congr_right
  intro _
  apply and_congr
  · cases arg.nullable <;> cases arg.defaultValue <;> simp
  · rw [bind_none, getD_none, bind_some]
    cases Json.lookup arg.name vars with
    | none => simp
    | some value => simp [eq_comm]

/-- The arguments without a request are those of the request when it gives nothing. -/
theorem defaulted_iff : Defaulted inputTypes m vars ↔ (clientArguments inputTypes m none).missing = [] ∧
    (clientArguments inputTypes m none).values = (clientArguments inputTypes m (some vars)).values := by
  unfold Defaulted
  rcases clientArguments_cases inputTypes m with ⟨htakes, hupdate, heq⟩ | ⟨htakes, hupdate, t, ht, heq⟩ | ⟨htakes, heq⟩
  · rw [heq, heq, inputArguments_without, if_pos htakes]
    apply and_congr_right
    intro _
    cases (Json.lookup "input" vars).bind Json.asObject? <;> simp [hupdate]
  · rw [heq, heq, inputArguments_without, if_pos htakes]
    apply and_congr_right
    intro _
    cases (Json.lookup "input" vars).bind Json.asObject? <;> simp [hupdate, ht]
  · rw [heq, heq, flatArguments_without, htakes]
    simp

end Arguments

/-! ### Writes -/

namespace Rest

/-- Root fields that are not mutations in any operation. -/
def metaFields : List String := ["__schema", "__type", "_service", "_entities"]

namespace Write

/-- The text that a write of a user is executed as. -/
def text (w : Write) : String := mutationText w.mutation (.obj w.vars)

end Write

variable (x : Dispatcher) (w : Write) (user : SecurityContext)

/-- The crate's parser, where it reads the text of a write, finds a mutation with the field at its start. -/
def ReadsField : Prop := ∀ parsed, Graphql.parseQuery x.lib w.text = .ok parsed →
  parsed.rootField = w.mutation ∧ x.operationKind w.text = .mutation

/-- A value is the positional argument of a name. -/
def Carries (m : MutationDefinition) (name : String) (value : Json) (args : List Json) : Prop :=
  ∃ (i : Nat) (arg : ArgumentDefinition), m.arguments[i]? = some arg ∧ arg.name = name ∧ args[i]? = some value

/-- The run of a user calls what the run without one calls, the function of the mutation at most once, and gives
it the path parameters. -/
structure WritesEntity (run : Option SecurityContext → Dispatched (Option Json)) (w : Write) (m : MutationDefinition)
    (user : SecurityContext) : Prop where
  same : functionCalls (run (some user)).calls = functionCalls (run none).calls
  once : functionCalls (run (some user)).calls = [] ∨ ∃ f args, m.functionName = some f ∧
    functionCalls (run (some user)).calls = [(f, args)]
  reaches : ∀ call ∈ functionCalls (run (some user)).calls, ∀ p ∈ w.pathParams,
    Carries m p.1 (coercePathParamValue p.2) call.2

variable {x w user} {m : MutationDefinition}

variable {inputTypes : List InputObjectDefinition}

theorem mutationArguments_eq (hinject : m.injectParams = [])
    {mutationName : String} {vars : Option Json} {ctx : Option SecurityContext}
    (h : (clientArguments inputTypes m (vars.bind Json.asObject?)).missing = []) :
    mutationArguments inputTypes m mutationName vars ctx =
      .ok (clientArguments inputTypes m (vars.bind Json.asObject?)).values := by
  unfold mutationArguments
  dsimp only
  rw [h, hinject]
  rfl

theorem mutationArguments_missing {mutationName : String} {vars : Option Json} {ctx : Option SecurityContext}
    (h : (clientArguments inputTypes m (vars.bind Json.asObject?)).missing ≠ []) :
    (mutationArguments inputTypes m mutationName vars ctx).isOk = false := by
  unfold mutationArguments
  dsimp only
  rw [if_pos (by simpa using h)]
  rfl

theorem classifyQuery_write (hreads : ReadsField x w) {parsed : Graphql.ParsedQuery}
    (hparse : parseQuery x.lib w.text = .ok parsed) :
    x.classifyQuery w.text = .ok (classifyParsed .mutation parsed) := by
  unfold classifyQuery classifyQueryWithParse
  rw [hparse, (hreads parsed hparse).2]
  rw [Except.mapError]
  dsimp only [bind, Except.bind]
  cases classifyParsed .mutation parsed <;> rfl

/-- A text that is not read as a mutation calls no function. -/
theorem functionCalls_user_unread (hreads : ReadsField x w)
    (h : (parseQuery x.lib w.text).isOk = false ∨ w.mutation ∈ metaFields) :
    functionCalls (executeWrite x w (some user)).calls = [] := by
  show functionCalls (x.executeWithSecurity w.text none user).calls = []
  unfold executeWithSecurity
  cases hparse : parseQuery x.lib w.text with
  | error e =>
    have herror : x.classifyQuery w.text = .error (.parse e "query") := by
      unfold classifyQuery classifyQueryWithParse
      rw [hparse]
      rfl
    rw [herror, calls_bind_error rfl]
    rfl
  | ok parsed =>
    have hmeta : w.mutation ∈ metaFields := by
      rcases h with h | h
      · rw [hparse] at h
        cases h
      · exact h
    rw [classifyQuery_write hreads hparse, calls_bind_ok rfl, calls_lift, nil_append]
    have hroot := (hreads parsed hparse).1
    unfold classifyParsed
    simp only [hroot]
    simp only [metaFields, mem_cons, not_mem_nil, or_false] at hmeta
    have hfederation : ∀ queryName, functionCalls (x.executeFederationQuery queryName w.text none).calls = [] := by
      intro queryName
      unfold executeFederationQuery
      cases x.federation <;> rfl
    rcases hmeta with h | h | h | h
    · rw [h]
      rfl
    · rw [h]
      rfl
    · rw [h]
      exact hfederation _
    · rw [h]
      exact hfederation _

/-- A text that is read runs the mutation without variables. -/
theorem functionCalls_user_read (hreads : ReadsField x w) (hparse : (parseQuery x.lib w.text).isOk = true)
    (hmeta : w.mutation ∉ metaFields) : ∃ sel, functionCalls (executeWrite x w (some user)).calls =
      functionCalls (executeMutationQueryWithSecurity x.base x.lib x.mutations w.mutation none (some user) sel).calls := by
  obtain ⟨parsed, hparse⟩ := Outcome.isOk_iff.mp hparse
  refine ⟨mutationSelections parsed, ?_⟩
  have hkind : classifyParsed .mutation parsed = .mutation w.mutation (mutationSelections parsed) := by
    unfold classifyParsed
    simp only [metaFields, mem_cons, not_mem_nil, or_false, not_or] at hmeta
    simp [(hreads parsed hparse).1, hmeta]
  show functionCalls (x.executeWithSecurity w.text none user).calls = _
  unfold executeWithSecurity
  rw [classifyQuery_write hreads hparse, calls_bind_ok rfl, calls_lift, nil_append, hkind]
  rfl

/-- The text is read, the session is set, and no required argument is missing without variables. -/
def Callable (x : Dispatcher) (w : Write) (user : SecurityContext) (m : MutationDefinition) : Prop :=
  (Graphql.parseQuery x.lib w.text).isOk = true ∧ w.mutation ∉ metaFields ∧ SessionSet x.base (some user) ∧
  (clientArguments x.mutations.inputTypes m none).missing = []

theorem functionCalls_user_called (hreads : ReadsField x w)
    (hm : findMutation x.lib x.mutations.mutations w.mutation = some m) (hinject : m.injectParams = []) {f : String}
    (hf : m.functionName = some f) (hcallable : Callable x w user m) :
    functionCalls (executeWrite x w (some user)).calls =
      [(f, (clientArguments x.mutations.inputTypes m none).values)] := by
  obtain ⟨hparse, hmeta, hset, hmissing⟩ := hcallable
  obtain ⟨sel, hcalls⟩ := @functionCalls_user_read x w user hreads hparse hmeta
  rw [hcalls]
  exact functionCalls_some hm hf (mutationArguments_eq hinject hmissing) hset

theorem functionCalls_user_silent (hreads : ReadsField x w)
    (hm : findMutation x.lib x.mutations.mutations w.mutation = some m)
    (h : m.functionName = none ∨ ¬ Callable x w user m) :
    functionCalls (executeWrite x w (some user)).calls = [] := by
  by_cases hunread : (parseQuery x.lib w.text).isOk = false ∨ w.mutation ∈ metaFields
  · exact functionCalls_user_unread hreads hunread
  · obtain ⟨hparse, hmeta⟩ := not_or.mp hunread
    have hparse := Bool.eq_true_of_not_eq_false hparse
    obtain ⟨sel, hcalls⟩ := @functionCalls_user_read x w user hreads hparse hmeta
    rw [hcalls]
    apply functionCalls_none hm
    rcases h with h | h
    · exact .inl h
    · by_cases hmissing : (clientArguments x.mutations.inputTypes m none).missing = []
      · exact .inr (.inr fun hset => h ⟨hparse, hmeta, hset, hmissing⟩)
      · exact .inr (.inl (mutationArguments_missing hmissing))

theorem functionCalls_anonymous (hm : findMutation x.lib x.mutations.mutations w.mutation = some m)
    (hinject : m.injectParams = []) {f : String} (hf : m.functionName = some f)
    (hmissing : (clientArguments x.mutations.inputTypes m (some w.vars)).missing = []) :
    functionCalls (executeWrite x w none).calls =
      [(f, (clientArguments x.mutations.inputTypes m (some w.vars)).values)] :=
  @functionCalls_some _ _ _ _ (some (.obj w.vars)) _ _ _ hm _ _ hf (mutationArguments_eq hinject hmissing) rfl

theorem functionCalls_anonymous_silent (hm : findMutation x.lib x.mutations.mutations w.mutation = some m)
    (h : m.functionName = none ∨ (clientArguments x.mutations.inputTypes m (some w.vars)).missing ≠ []) :
    functionCalls (executeWrite x w none).calls = [] := by
  refine @functionCalls_none _ _ _ _ (some (.obj w.vars)) _ _ _ hm ?_
  rcases h with h | h
  · exact .inl h
  · exact .inr (.inl (@mutationArguments_missing _ _ _ (some (.obj w.vars)) _ h))

theorem calls_handleWrite {config : WriteConfig} {now : Nat} {entries : Idempotency.Entries} {request : WriteRequest}
    (hwrite : writeOf config now entries request = some w) (ctx : Option SecurityContext) :
    (handleWrite config x now entries request ctx).calls = (executeWrite x w ctx).calls := by
  unfold handleWrite
  rw [hwrite]
  dsimp only
  cases houtcome : (executeWrite x w ctx).outcome with
  | ok result => rw [calls_bind_ok houtcome, calls_pure, append_nil]
  | error e => rw [calls_bind_error houtcome]

theorem inputArguments_none_values (values : List (String × Json) → List Json) :
    (inputArguments m none values).values = [] := rfl

/-- Without variables a value reaches the function when it is the default of its argument. -/
theorem carries_default_iff {name : String} {value : Json} :
    Carries m name value (clientArguments inputTypes m none).values ↔ takesInput inputTypes m = false ∧
      ∃ arg ∈ m.arguments, arg.name = name ∧ arg.defaultValue.getD .null = value := by
  have hinput : takesInput inputTypes m = true → (clientArguments inputTypes m none).values = [] := by
    intro h
    rcases clientArguments_cases inputTypes m with ⟨-, -, heq⟩ | ⟨-, -, t, -, heq⟩ | ⟨hflat, -⟩
    · rw [heq, inputArguments_none_values]
    · rw [heq, inputArguments_none_values]
    · rw [h] at hflat
      cases hflat
  cases htakes : takesInput inputTypes m with
  | true =>
    rw [hinput htakes]
    constructor
    · rintro ⟨i, arg, -, -, hvalue⟩
      cases hvalue
    · rintro ⟨h, -⟩
      cases h
  | false =>
    have hvalues : (clientArguments inputTypes m none).values =
        m.arguments.map fun arg => arg.defaultValue.getD .null := by
      rw [clientArguments_flat htakes]
      rfl
    rw [hvalues]
    unfold Carries
    constructor
    · rintro ⟨i, arg, harg, hname, hvalue⟩
      rw [getElem?_map, harg] at hvalue
      exact ⟨rfl, arg, mem_of_getElem? harg, hname, some.inj hvalue⟩
    · rintro ⟨-, arg, harg, hname, hvalue⟩
      obtain ⟨i, hi⟩ := mem_iff_getElem?.mp harg
      refine ⟨i, arg, hi, hname, ?_⟩
      rw [getElem?_map, hi, map_some, hvalue]

/-- A write of a user agrees with one without exactly when nothing is called, or the text is read and the request
gives nothing but defaults. -/
theorem write_agrees_iff {config : WriteConfig} {now : Nat} {entries : Idempotency.Entries} {request : WriteRequest}
    (hwrite : writeOf config now entries request = some w)
    (hm : findMutation x.lib x.mutations.mutations w.mutation = some m) (hinject : m.injectParams = [])
    (hreads : ReadsField x w) :
    WritesEntity (handleWrite config x now entries request) w m user ↔
      m.functionName = none ∨ (clientArguments x.mutations.inputTypes m (some w.vars)).missing ≠ [] ∨
      ((Graphql.parseQuery x.lib w.text).isOk = true ∧ w.mutation ∉ metaFields ∧ SessionSet x.base (some user) ∧
        Defaulted x.mutations.inputTypes m w.vars ∧
        ∀ p ∈ w.pathParams, takesInput x.mutations.inputTypes m = false ∧
          ∃ arg ∈ m.arguments, arg.name = p.1 ∧ arg.defaultValue.getD .null = coercePathParamValue p.2) := by
  have huser := @calls_handleWrite x w config now entries request hwrite (some user)
  have hnone := @calls_handleWrite x w config now entries request hwrite none
  have hsilent : functionCalls (executeWrite x w (some user)).calls = [] →
      functionCalls (executeWrite x w none).calls = [] →
      WritesEntity (handleWrite config x now entries request) w m user := by
    intro hu hn
    rw [← huser] at hu
    rw [← hnone] at hn
    refine ⟨hu.trans hn.symm, .inl hu, ?_⟩
    intro call hcall
    rw [hu] at hcall
    cases hcall
  cases hf : m.functionName with
  | none =>
    refine iff_of_true (hsilent ?_ ?_) (.inl rfl)
    · exact functionCalls_user_silent hreads hm (.inl hf)
    · exact functionCalls_anonymous_silent hm (.inl hf)
  | some f =>
    by_cases hmissing : (clientArguments x.mutations.inputTypes m (some w.vars)).missing = []
    · have hanonymous := functionCalls_anonymous hm hinject hf hmissing
      constructor
      · rintro ⟨hsame, -, hreaches⟩
        rw [huser, hnone, hanonymous] at hsame
        rw [huser, hsame] at hreaches
        have hcallable : Callable x w user m := by
          by_contra hnot
          rw [functionCalls_user_silent hreads hm (.inr hnot)] at hsame
          cases hsame
        rw [functionCalls_user_called hreads hm hinject hf hcallable] at hsame
        have hvalues := congrArg Prod.snd (head_eq_of_cons_eq hsame)
        obtain ⟨hparse, hmeta, hset, hnomissing⟩ := hcallable
        refine .inr (.inr ⟨hparse, hmeta, hset, defaulted_iff.mpr ⟨hnomissing, hvalues⟩, ?_⟩)
        intro p hp
        have hreach := hreaches _ mem_cons_self p hp
        rw [← hvalues] at hreach
        exact carries_default_iff.mp hreach
      · intro h
        rcases h with h | h | ⟨hparse, hmeta, hset, hdefault, hpath⟩
        · cases h
        · exact absurd hmissing h
        · obtain ⟨hnomissing, hvalues⟩ := defaulted_iff.mp hdefault
          have hcalls := functionCalls_user_called hreads hm hinject hf ⟨hparse, hmeta, hset, hnomissing⟩
          rw [← huser] at hcalls
          rw [← hnone, ← hvalues] at hanonymous
          refine ⟨hcalls.trans hanonymous.symm, .inr ⟨f, _, hf, hcalls⟩, ?_⟩
          intro call hcall p hp
          rw [hcalls] at hcall
          rw [mem_singleton.mp hcall]
          exact carries_default_iff.mpr (hpath p hp)
    · refine iff_of_true (hsilent ?_ ?_) (.inr (.inl hmissing))
      · exact functionCalls_user_silent hreads hm (.inr fun h => missing_without hmissing h.2.2.2)
      · exact functionCalls_anonymous_silent hm (.inr hmissing)

/-! ### Renaming a user -/

/-- A field with the selection that writes of users ask for. -/
def writtenField (name : Graphql.Name) (arguments : List (Graphql.Name × Graphql.Value)) : Graphql.Document :=
  ⟨[.operation [.field none name arguments [] [.field none ⟨"status", .refl true⟩ [] [] [],
    .field none ⟨"entity_id", .refl true⟩ [] [] [], .field none ⟨"message", .refl true⟩ [] [] []]]]⟩

/-- `mutation { renameUser(id: 1, name: "Ada") { status entity_id message } }`, and the same without arguments. -/
def renameLibrary : Graphql.Library where
  parseDocument := fun text =>
    if text = "mutation \x7b refresh \x7b status entity_id message \x7d \x7d" then
      .ok (writtenField ⟨"refresh", .refl true⟩ [])
    else if text = "mutation \x7b renameUser(id: 1, name: \"Ada\") \x7b status entity_id message \x7d \x7d" then
      .ok (writtenField ⟨"renameUser", .refl true⟩
        [(⟨"id", .refl true⟩, .int 1), (⟨"name", .refl true⟩, .string "Ada")])
    else .error "unexpected text"
  fromStr := fun _ => none
  isUppercase := Char.isUpper
  isLowercase := Char.isLower
  camelCase := false

def renameUser : MutationDefinition where
  name := "renameUser"
  returnType := "User"
  arguments := [⟨"id", .int, false, none⟩, ⟨"name", .string, true, none⟩]
  operation := .update "tb_user"
  sqlSource := some "fn_rename_user"
  injectParams := []

def refresh : MutationDefinition where
  name := "refresh"
  returnType := "User"
  arguments := []
  operation := .custom
  sqlSource := some "fn_refresh"
  injectParams := []

def renameDispatcher : Dispatcher :=
  { Dispatcher.ofQueries plainExecutor renameLibrary with
    operationKind := fun _ => .mutation
    mutations := ⟨[renameUser, refresh], [], true, fun _ _ => .ok [.obj []], fun _ _ row => .ok row⟩ }

def renameConfig : WriteConfig where
  table := [⟨"users", "User", some "id", [⟨.patch, "/users/\x7bid\x7d", .mutation "renameUser", 200⟩,
    ⟨.put, "/refresh", .mutation "refresh", 200⟩]⟩]
  upsertFunction := fun _ => none
  hashBody := fun _ => 0
  bulkResponse := fun _ value => ⟨201, [], some value⟩
  ttl := 300
  maxEntries := 10000
  walk := id
  walk_perm := Idempotency.id_perm
  writableFields := fun _ => none
  toLowercase := String.toLower

/-- `PATCH /users/1` with a new name. -/
def renameRequest : WriteRequest :=
  ⟨.patch, "/users/1", .obj [("name", .str "Ada")], none, none, none, "r1"⟩

def renameWrite : Write := ⟨"renameUser", [("id", "1")], .obj [("name", .str "Ada")]⟩

theorem renameWrite_text : renameWrite.text =
    "mutation \x7b renameUser(id: 1, name: \"Ada\") \x7b status entity_id message \x7d \x7d" := by
  decide +kernel

/-- With a user the function is not called, for want of the identifier that stands in the path. -/
theorem user_write_loses_arguments :
    writeOf renameConfig 0 [] renameRequest = some renameWrite ∧
    findMutation renameDispatcher.lib renameDispatcher.mutations.mutations renameWrite.mutation = some renameUser ∧
    renameUser.injectParams = [] ∧ ReadsField renameDispatcher renameWrite ∧
    functionCalls (handleWrite renameConfig renameDispatcher 0 [] renameRequest none).calls =
      [("fn_rename_user", [.ofNat 1, .str "Ada"])] ∧
    functionCalls (handleWrite renameConfig renameDispatcher 0 [] renameRequest (some tenantUser)).calls = [] ∧
    ¬ WritesEntity (handleWrite renameConfig renameDispatcher 0 [] renameRequest) renameWrite renameUser tenantUser := by
  have hwrite : writeOf renameConfig 0 [] renameRequest = some renameWrite := rfl
  have hm : findMutation renameDispatcher.lib renameDispatcher.mutations.mutations renameWrite.mutation =
      some renameUser := rfl
  have hreads : ReadsField renameDispatcher renameWrite := by
    intro parsed hparsed
    rw [renameWrite_text] at hparsed
    rw [← Except.ok.inj hparsed]
    exact ⟨rfl, rfl⟩
  have hnone : functionCalls (handleWrite renameConfig renameDispatcher 0 [] renameRequest none).calls =
      [("fn_rename_user", [.ofNat 1, .str "Ada"])] := by
    rw [calls_handleWrite hwrite]
    exact functionCalls_anonymous hm rfl rfl rfl
  have huser : functionCalls (handleWrite renameConfig renameDispatcher 0 [] renameRequest
      (some tenantUser)).calls = [] := by
    rw [calls_handleWrite hwrite]
    apply functionCalls_user_silent hreads hm (.inr fun h => ?_)
    cases h.2.2.2
  refine ⟨hwrite, hm, rfl, hreads, hnone, huser, ?_⟩
  intro hentity
  have hsame := hentity.same
  rw [hnone, huser] at hsame
  cases hsame

/-- `PUT /refresh`. -/
def refreshRequest : WriteRequest := ⟨.put, "/refresh", .obj [], none, none, none, "r1"⟩

theorem refresh_agrees :
    WritesEntity (handleWrite renameConfig renameDispatcher 0 [] refreshRequest) ⟨"refresh", [], .obj []⟩ refresh
      tenantUser := by
  refine (@write_agrees_iff renameDispatcher _ tenantUser _ renameConfig 0 [] refreshRequest rfl rfl rfl ?_).mpr
    (.inr (.inr ⟨rfl, by decide, rfl, ?_, fun p hp => (nomatch hp)⟩))
  · intro parsed hparsed
    rw [← Except.ok.inj hparsed]
    exact ⟨rfl, rfl⟩
  · intro arg harg
    cases harg

end Rest

end FraiseQL
