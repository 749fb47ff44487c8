import FraiseQL.RestWriteAgreement

/-! Positions of the arguments of a mutation. The definition fixes how many there are: those of the client, as they are
declared, and the injected ones after them. A mutation that is made of an input object passes nothing for an optional
one that is not given, and the injected arguments then move into its place. -/

namespace FraiseQL

open List Option

/-- What a position of the client stands for: the input object, one of its fields, or an argument. -/
inductive ClientPosition where
  | input
  | inputField (name : String)
  | argument (name : String)

section Positions

variable (inputTypes : List InputObjectDefinition) (m : MutationDefinition) (vars : Option (List (String × Json)))

def declaredPositions : List ClientPosition :=
  if m.isUpdate && m.inputTypeName.isSome then [.input]
  else match inputType? inputTypes m with
    | some t => t.fields.map .inputField
    | none => m.arguments.map fun arg => .argument arg.name

/-- What a request supplies for a position. -/
def suppliedFor : ClientPosition → Option Json
  | .input => vars.bind (Json.lookup "input")
  | .inputField name => ((vars.bind (Json.lookup "input")).bind Json.asObject?).bind (Json.lookup name)
  | .argument name => vars.bind (Json.lookup name)

/-- As many arguments as are declared, with what the client supplies in its declared positions and the injected
parameters, in their order, in the last ones. -/
structure Positioned (ctx : Option SecurityContext) (args : List Json) : Prop where
  length : args.length = (declaredPositions inputTypes m).length + m.injectParams.length
  client : ∀ (i : Nat) position value, (declaredPositions inputTypes m)[i]? = some position →
    suppliedFor vars position = some value → args[i]? = some value
  injected : ∀ (i : Nat) param, m.injectParams[i]? = some param → ∃ user value, ctx = some user ∧
    resolveInjectValue param.1 param.2 user = .ok value ∧
    args[(declaredPositions inputTypes m).length + i]? = some value

/-- An input object that arguments are made of is given, unless its type has no fields. -/
def InputGiven : Prop :=
  takesInput inputTypes m = true → ((vars.bind (Json.lookup "input")).bind Json.asObject?).isSome = true ∨
    declaredPositions inputTypes m = []

variable {inputTypes m vars} {ctx : Option SecurityContext} {args : List Json}

/-- The injected arguments follow those of the client. -/
theorem mutationArguments_ok {mutationName : String} {given : Option Json}
    (h : mutationArguments inputTypes m mutationName given ctx = .ok args) :
    ∃ injected, args = (clientArguments inputTypes m (given.bind Json.asObject?)).values ++ injected ∧
      injected.length = m.injectParams.length ∧
      ∀ (i : Nat) param, m.injectParams[i]? = some param → ∃ user value, ctx = some user ∧
        resolveInjectValue param.1 param.2 user = .ok value ∧ injected[i]? = some value := by
  unfold mutationArguments at h
  dsimp only at h
  split_ifs at h with hmissing hnone
  · refine ⟨[], ?_, ?_, ?_⟩
    · rw [append_nil]
      exact (Except.ok.inj h).symm
    · rw [isEmpty_iff.mp hnone]
      rfl
    · intro i param hparam
      rw [isEmpty_iff.mp hnone] at hparam
      cases hparam
  · simp only [Outcome.bind_eq_ok, Outcome.pure_eq_ok, okOr_eq_ok] at h
    obtain ⟨user, hctx, injected, hinjected, rfl⟩ := h
    have hrelated := Outcome.mapM_forall₂ hinjected
    refine ⟨injected, rfl, hrelated.length_eq.symm, ?_⟩
    intro i param hparam
    obtain ⟨hi, hat⟩ := List.getElem?_eq_some_iff.mp hparam
    have hi' : i < injected.length := hrelated.length_eq ▸ hi
    refine ⟨user, injected[i], hctx, ?_, List.getElem?_eq_getElem hi'⟩
    rw [← hat]
    exact hrelated.get hi hi'

theorem clientArguments_not_given (htakes : takesInput inputTypes m = true)
    (hinput : (vars.bind (Json.lookup "input")).bind Json.asObject? = none) :
    (clientArguments inputTypes m vars).values = [] := by
  rcases clientArguments_cases inputTypes m with ⟨-, -, heq⟩ | ⟨-, -, t, -, heq⟩ | ⟨hflat, -⟩
  · rw [heq, inputArguments, hinput]
  · rw [heq, inputArguments, hinput]
  · rw [htakes] at hflat
    cases hflat

/-- Nothing is passed for an input that is not given. -/
theorem clientArguments_nil (hgiven : ¬InputGiven inputTypes m vars) :
    (clientArguments inputTypes m vars).values = [] ∧ declaredPositions inputTypes m ≠ [] := by
  simp only [InputGiven, not_forall, not_or, Bool.not_eq_true, isSome_eq_false_iff, isNone_iff_eq_none]
    at hgiven
  obtain ⟨htakes, hinput, hdeclared⟩ := hgiven
  exact ⟨clientArguments_not_given htakes hinput, hdeclared⟩

variable (inputTypes m vars)

/-- The values stand in the declared positions. -/
def Placed (values : List Json) : Prop :=
  values.length = (declaredPositions inputTypes m).length ∧
  ∀ (i : Nat) position value, (declaredPositions inputTypes m)[i]? = some position →
    suppliedFor vars position = some value → values[i]? = some value

variable {inputTypes m vars}

/-- Values that are made position by position are placed. -/
theorem placed_map {α : Type} {as : List α} {position : α → ClientPosition} {value : α → Json}
    (hdeclared : declaredPositions inputTypes m = as.map position)
    (hvalue : ∀ a v, suppliedFor vars (position a) = some v → value a = v) :
    Placed inputTypes m vars (as.map value) := by
  rw [Placed, hdeclared]
  refine ⟨by rw [length_map, length_map], ?_⟩
  intro i p v hposition hsupplied
  rw [getElem?_map] at hposition ⊢
  obtain ⟨a, ha, rfl⟩ := map_eq_some_iff.mp hposition
  rw [ha, map_some, hvalue a v hsupplied]

theorem placed_flat (htakes : takesInput inputTypes m = false) :
    Placed inputTypes m vars (clientArguments inputTypes m vars).values := by
  obtain ⟨hupdate, hnone⟩ := Bool.or_eq_false_iff.mp htakes
  have hdeclared : declaredPositions inputTypes m = m.arguments.map fun arg => .argument arg.name := by
    rw [isSome_eq_false_iff, isNone_iff_eq_none] at hnone
    rw [declaredPositions, hupdate, hnone]
    rfl
  rw [clientArguments_flat htakes, flatArguments]
  refine placed_map hdeclared ?_
  intro arg v hsupplied
  rw [suppliedFor] at hsupplied
  simp only [hsupplied, getD_some]

theorem placed_input {input : List (String × Json)} (htakes : takesInput inputTypes m = true)
    (hinput : (vars.bind (Json.lookup "input")).bind Json.asObject? = some input) :
    Placed inputTypes m vars (clientArguments inputTypes m vars).values := by
  cases hupdate : m.isUpdate && m.inputTypeName.isSome with
  | true =>
    have hdeclared : declaredPositions inputTypes m = [()].map fun _ => .input := by
      rw [declaredPositions, if_pos hupdate]
      rfl
    have hvalues : (clientArguments inputTypes m vars).values = [()].map fun _ => .obj input := by
      rw [clientArguments_update hupdate, inputArguments, hinput]
      rfl
    rw [hvalues]
    refine placed_map hdeclared ?_
    intro _ v hsupplied
    rw [suppliedFor] at hsupplied
    rw [hsupplied] at hinput
    cases v with
    | obj entries => rw [some.inj hinput]
    | _ => cases hinput
  | false =>
    have hsome : (inputType? inputTypes m).isSome = true := by
      rw [takesInput, hupdate, Bool.false_or] at htakes
      exact htakes
    obtain ⟨t, ht⟩ := isSome_iff_exists.mp hsome
    have hdeclared : declaredPositions inputTypes m = t.fields.map .inputField := by
      rw [declaredPositions, hupdate, ht]
      rfl
    rw [clientArguments_input hupdate ht, inputArguments, hinput]
    refine placed_map hdeclared ?_
    intro field v hsupplied
    rw [suppliedFor, hinput, bind_some] at hsupplied
    rw [hsupplied, getD_some]

/-- Every declared position is filled when the input is given. -/
theorem clientArguments_placed (hgiven : InputGiven inputTypes m vars) :
    Placed inputTypes m vars (clientArguments inputTypes m vars).values := by
  cases htakes : takesInput inputTypes m with
  | false => exact placed_flat htakes
  | true =>
    cases hinput : (vars.bind (Json.lookup "input")).bind Json.asObject? with
    | some input => exact placed_input htakes hinput
    | none =>
      have hnil : declaredPositions inputTypes m = [] := by
        refine (hgiven htakes).resolve_left ?_
        rw [hinput]
        exact Bool.false_ne_true
      rw [clientArguments_not_given htakes hinput, Placed, hnil]
      exact ⟨rfl, fun i _ _ hposition => nomatch hposition⟩

theorem positioned_iff {injected : List Json} (hlength : injected.length = m.injectParams.length)
    (hinjected : ∀ (i : Nat) param, m.injectParams[i]? = some param → ∃ user value, ctx = some user ∧
      resolveInjectValue param.1 param.2 user = .ok value ∧ injected[i]? = some value) :
    Positioned inputTypes m vars ctx ((clientArguments inputTypes m vars).values ++ injected) ↔
      InputGiven inputTypes m vars := by
  constructor
  · intro hpositioned
    by_contra hgiven
    obtain ⟨hnil, hdeclared⟩ := clientArguments_nil hgiven
    have htotal := hpositioned.length
    rw [hnil, nil_append, hlength] at htotal
    have hpos := length_pos_of_ne_nil hdeclared
    omega
  · intro hgiven
    obtain ⟨hclient, hvalues⟩ := clientArguments_placed hgiven
    constructor
    · rw [length_append, hclient, hlength]
    · intro i position value hposition hsupplied
      have hi : i < (clientArguments inputTypes m vars).values.length := by
        rw [hclient]
        exact (List.getElem?_eq_some_iff.mp hposition).1
      rw [List.getElem?_append_left hi]
      exact hvalues i position value hposition hsupplied
    · intro i param hparam
      obtain ⟨user, value, hctx, hvalue, hat⟩ := hinjected i param hparam
      refine ⟨user, value, hctx, hvalue, ?_⟩
      rw [getElem?_append_right (by omega), ← hclient, Nat.add_sub_cancel_left]
      exact hat

end Positions

/-! ### Calls -/

/-- The function is called with its arguments in position exactly when an input object they are made of is given. -/
theorem arguments_positioned_iff {x : Executor} {lib : Graphql.Library} {s : MutationSchema} {mutationName : String}
    {vars : Option Json} {ctx : Option SecurityContext} {sel : TypeSelections} {m : MutationDefinition}
    {function : String} {args : List Json} (hm : findMutation lib s.mutations mutationName = some m)
    (hcall : (function, args) ∈
      functionCalls (executeMutationQueryWithSecurity x lib s mutationName vars ctx sel).calls) :
    Positioned s.inputTypes m (vars.bind Json.asObject?) ctx args ↔
      InputGiven s.inputTypes m (vars.bind Json.asObject?) := by
  have hcalled : ∀ h : m.functionName = none ∨ (mutationArguments s.inputTypes m mutationName vars ctx).isOk = false ∨
      ¬SessionSet x ctx, False := by
    intro h
    rw [functionCalls_none hm h] at hcall
    cases hcall
  obtain ⟨f, hf⟩ := ne_none_iff_exists'.mp fun h => hcalled (.inl h)
  have hset : SessionSet x ctx := not_not.mp fun h => hcalled (.inr (.inr h))
  cases harguments : mutationArguments s.inputTypes m mutationName vars ctx with
  | error e => exact (hcalled (.inr (.inl (by rw [harguments]; rfl)))).elim
  | ok arguments =>
    rw [functionCalls_some hm hf harguments hset, mem_singleton] at hcall
    obtain ⟨-, rfl⟩ := Prod.mk.inj hcall
    obtain ⟨injected, rfl, hlength, hinjected⟩ := mutationArguments_ok harguments
    exact positioned_iff hlength hinjected

/-- `createUser(input: CreateUserInput)`, with the tenant of the user after the fields of the input. -/
def createUser : MutationDefinition where
  name := "createUser"
  returnType := "User"
  arguments := [⟨"input", .input "CreateUserInput", true, none⟩]
  operation := .insert "tb_user"
  sqlSource := some "fn_create_user"
  injectParams := [("tenant_id", .jwt "tenant_id")]

def createSchema : MutationSchema :=
  ⟨[createUser], [⟨"CreateUserInput", ["name", "email"]⟩], true, fun _ _ => .ok [.obj []], fun _ _ row => .ok row⟩

/-- The functions that `createUser` calls. -/
def createCalls (vars : Json) : List (String × List Json) :=
  functionCalls (executeMutationQueryWithSecurity plainExecutor Rest.renameLibrary createSchema "createUser" (some vars)
    (some tenantUser) []).calls

/-- The tenant comes after name and email. -/
theorem create_positioned : Positioned createSchema.inputTypes createUser
    (some [("input", .obj [("name", .str "Ada")])]) (some tenantUser) [.str "Ada", .null, .str "acme"] := by
  have hcall : ("fn_create_user", [.str "Ada", .null, .str "acme"]) ∈
      createCalls (.obj [("input", .obj [("name", .str "Ada")])]) := mem_singleton.mpr rfl
  exact (arguments_positioned_iff (m := createUser) rfl hcall).mpr fun _ => .inl rfl

/-- Without the optional input the tenant comes first. -/
theorem tenant_in_place_of_name :
    ¬∀ (x : Executor) (lib : Graphql.Library) (s : MutationSchema) (mutationName : String) (vars : Option Json)
      (ctx : Option SecurityContext) (sel : TypeSelections) (m : MutationDefinition) (function : String)
      (args : List Json), findMutation lib s.mutations mutationName = some m →
      (function, args) ∈ functionCalls (executeMutationQueryWithSecurity x lib s mutationName vars ctx sel).calls →
      Positioned s.inputTypes m (vars.bind Json.asObject?) ctx args := by
  intro hall
  have hcall : ("fn_create_user", [.str "acme"]) ∈ createCalls (.obj []) := mem_singleton.mpr rfl
  have hpositioned := hall _ _ createSchema _ _ _ _ createUser _ _ rfl hcall
  cases hpositioned.length

end FraiseQL
