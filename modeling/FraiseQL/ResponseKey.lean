import FraiseQL.ExecutorSecurity
import FraiseQL.JsonText
import FraiseQL.ResponseRows

/-! The key of the response cache. Its tokens are the name of the query, the names of the root selections and
the arguments with their JSON texts, one after the other. What is selected under the root is not in it, and
nothing marks where the names end and the arguments begin, so one query's arguments can be another's followed
by more. Queries with the same tokens get the same response from every state of the database exactly when the
arguments the definition reads are the same and the selections agree. -/

namespace FraiseQL.ResponseKey

open CacheKey (Held)
open ProjectionPushdown ResponseRows SelectionAgreement ResultProjector Executor List Except

/-! ### Responses from a state of the database -/

/-- The rows a read selects. -/
structure RowRequest where
  view : String
  whereClause : Option WhereClause
  limit : Option Nat
  offset : Option Nat
  orderBy : Option (List OrderByClause)

/-- A state of the database: the `data` of the rows a read selects. -/
abbrev State := RowRequest → Except FraiseQLError (List Json)

def badProjection : FraiseQLError := .database "syntax error in the projection" (some "42601")

/-- The selected column: `data`, or the projection of it. -/
def selectColumn (render : Json → String) : Option SqlProjectionHint → Json → Except FraiseQLError Json
  | none, data => .ok data
  | some hint, data => okOr (Jsonb.denotes render hint.projectionTemplate data) badProjection

/-- `execute_with_projection` of the PostgreSQL adapter, over a state of the database. -/
def runProjection (render : Json → String) (state : State) (request : ProjectionRequest) :
    Except FraiseQLError (List Json) := do
  let rows ← state ⟨request.view, request.whereClause, request.limit, request.offset, request.orderBy⟩
  rows.mapM (selectColumn render request.projection)

def overState (x : Executor) (render : Json → String) (state : State) : Executor :=
  { x with adapter := { x.adapter with
      databaseType := .postgresql
      executeWithProjection := runProjection render state } }

/-- The response of an authenticated query that is not in the cache. -/
def respond (x : Executor) (render : Json → String) (ctx : SecurityContext) (state : State) (m : QueryMatch) :
    Except FraiseQLError Json :=
  ((overState x render state).computeResponse m ctx).outcome

/-- Queries with the same key tokens get the same response. -/
def KeySound (x : Executor) (render : Json → String) (ctx : SecurityContext) (m m' : QueryMatch) : Prop :=
  responseKeyTokens m = responseKeyTokens m' → ∀ state, respond x render ctx state m = respond x render ctx state m'

/-! ### What a response depends on -/

section Parts

variable (x : Executor) (ctx : SecurityContext) (m m' : QueryMatch)

/-- The source of a query and its security conditions. -/
def security (d : QueryDefinition) : Except FraiseQLError (String × Option WhereClause) := do
  let rls ← evaluateRls x.rlsPolicy (some ctx) d.name
  let source ← okOr d.sqlSource noSqlSource
  let secured ← injectedWhere d rls ctx
  return (source, secured)

/-- The client's filter. -/
def filterOf : Except FraiseQLError (Option WhereClause) :=
  userWhere x.charCase m.queryDef (m.arguments.lookup "where")

/-- The client's order. -/
def orderOf : Except FraiseQLError (Option (List OrderByClause)) :=
  orderByArg x.charCase x.schema m.queryDef
    (Executor.whenEnabled m.queryDef.autoParams.hasOrderBy (m.arguments.lookup "orderBy"))

def limitOf : Option Nat := pageArg (Executor.whenEnabled m.queryDef.autoParams.hasLimit (m.arguments.lookup "limit"))

def offsetOf : Option Nat :=
  pageArg (Executor.whenEnabled m.queryDef.autoParams.hasOffset (m.arguments.lookup "offset"))

/-- The rows a query asks for. -/
def rowRequest : Except FraiseQLError RowRequest := do
  let (source, secured) ← security x ctx m.queryDef
  let user ← filterOf x m
  let order ← orderOf x m
  return ⟨source, combineExplicitArgWhere (composeWhere secured user) m.queryDef.arguments m.arguments
    m.queryDef.nativeColumns, limitOf m, offsetOf m, order⟩

/-- Which fields the user may read. -/
def accessOf : Except FraiseQLError FieldAccess :=
  applyFieldRbacFiltering x.schema m.queryDef.returnType (extractProjectionFields m) ctx

/-- The response to the selected rows. -/
def rowResponse (render : Json → String) (rows : List Json) : Except FraiseQLError Json := do
  let access ← accessOf x ctx m
  let shownRows := rows.map (shown x.charCase render x.parseJson x.schema m access)
  let result := if m.queryDef.returnsList then Json.arr shownRows else shownRows.head?.getD .null
  return ResultProjector.wrapInDataEnvelope result m.queryDef.name

/-! ### The condition -/

/-- An argument has the same value in both queries, or is in neither. -/
def SameArgument (name : String) : Prop := m.arguments.lookup name = m'.arguments.lookup name

/-- Both queries are refused for the same field, or show the same of every row. -/
def ShowAlike : Prop :=
  (∃ e, accessOf x ctx m = .error e ∧ accessOf x ctx m' = .error e) ∨
    ((∃ access, accessOf x ctx m = .ok access) ∧ (∃ access, accessOf x ctx m' = .ok access) ∧
      SelectionsAgree x.schema ctx m m')

/-- The arguments ask for the same rows, in the order in which the executor reads them: the filter is the same,
and unless it is refused the order too, and unless that is refused every other argument of the definition and
the page. -/
def SameRows : Prop :=
  (m.queryDef.autoParams.hasWhere = true → SameArgument m m' "where") ∧
    ((∃ e, filterOf x m = .error e) ∨
      (m.queryDef.autoParams.hasOrderBy = true → SameArgument m m' "orderBy") ∧
        ((∃ e, orderOf x m = .error e) ∨
          (∀ name ∈ m.queryDef.arguments, name ∉ autoParamNames → SameArgument m m' name) ∧
            limitOf m = limitOf m' ∧ offsetOf m = offsetOf m'))

/-- Two queries over one definition are alike: the security conditions fail, or the same rows are asked for and
the filter or the order is refused or the same is shown of every row. -/
def Alike : Prop :=
  (∃ e, security x ctx m.queryDef = .error e) ∨
    SameRows x m m' ∧ ((∃ e, filterOf x m = .error e) ∨ (∃ e, orderOf x m = .error e) ∨ ShowAlike x ctx m m')

end Parts

/-! ### The response in its parts -/

section Response

variable {x : Executor} {render : Json → String} {ctx : SecurityContext} {state : State} {m m' : QueryMatch}

/-- The SQL projects every row. -/
theorem selectColumn_eq (cc : WhereFilter.CharCase) (render : Json → String) (schema : CompiledSchema)
    (database : DatabaseType) (strategy : JsonbStrategy) (m : QueryMatch) (data : Json) :
    selectColumn render (projectionHint cc schema database strategy m) data =
      .ok (projected cc render schema m data) := by
  unfold projectionHint projected
  by_cases hselects : selects m.rootFields = true
  · have hfields : (extractProjectionFields m).isEmpty = false := by
      rw [isEmpty_eq_false_iff]
      intro hnil
      obtain ⟨key, hkey⟩ := selects_iff.mp hselects
      have hmem := (mem_extractProjectionFields m key).mpr hkey
      rw [hnil] at hmem
      cases hmem
    have hbuild : (buildTypedProjectionFields schema m.queryDef.returnType 0 m.rootFields).isEmpty = false := by
      rw [isEmpty_eq_false_iff, Ne, build_eq_nil_iff, hselects]
      exact Bool.noConfusion
    have hstrategy : chooseJsonbStrategy strategy (extractProjectionFields m) = .project := by
      rw [chooseJsonbStrategy, hfields]
      rfl
    rw [if_pos hselects]
    dsimp only
    rw [hfields, hstrategy]
    show okOr (Jsonb.denotes render (generateTypedProjectionSql cc _) data) badProjection = _
    rw [Jsonb.generateTypedProjectionSql_eq, Jsonb.denotes_text, Jsonb.typedProjection, hbuild]
    rfl
  · rw [Bool.not_eq_true] at hselects
    dsimp only
    rw [extractProjectionFields_eq_nil m hselects, hselects]
    rfl

theorem securedRequest_eq : (overState x render state).securedRequest m ctx =
    (rowRequest x ctx m).map fun r => ⟨r.view, projectionHint x.charCase x.schema .postgresql x.defaultStrategy m,
      r.whereClause, r.limit, r.offset, r.orderBy⟩ := by
  simp only [securedRequest, overState, rowRequest, security, filterOf, orderOf, bind, Except.bind,
    Except.map, pure, Except.pure]
  cases evaluateRls x.rlsPolicy (some ctx) m.queryDef.name with
  | error e => rfl
  | ok rls =>
    cases okOr m.queryDef.sqlSource noSqlSource with
    | error e => rfl
    | ok source =>
      dsimp only
      cases injectedWhere m.queryDef rls ctx with
      | error e => rfl
      | ok secured =>
        cases userWhere x.charCase m.queryDef (m.arguments.lookup "where") with
        | error e => rfl
        | ok user =>
          dsimp only
          cases orderByArg x.charCase x.schema m.queryDef
            (whenEnabled m.queryDef.autoParams.hasOrderBy (m.arguments.lookup "orderBy")) with
          | error e => rfl
          | ok order => rfl

theorem securedResponse_eq (rows : List Json) : (overState x render state).securedResponse m ctx
    (rows.map (projected x.charCase render x.schema m)) = rowResponse x ctx m render rows := by
  unfold securedResponse rowResponse accessOf
  show (applyFieldRbacFiltering x.schema m.queryDef.returnType (extractProjectionFields m) ctx >>= _) = _
  cases applyFieldRbacFiltering x.schema m.queryDef.returnType (extractProjectionFields m) ctx with
  | error e => rfl
  | ok access =>
    have hmask : ∀ value : Json, (if access.masked.isEmpty then value else nullMaskedFields access.masked value) =
        nullMaskedFields access.masked value := by
      intro value
      split_ifs with hempty
      · rw [isEmpty_iff.mp hempty, nullMaskedFields_nil]
      · rfl
    show ok (wrapInDataEnvelope (if access.masked.isEmpty then _ else _) _) = .ok _
    rw [hmask]
    apply congrArg (fun result => ok (wrapInDataEnvelope result m.queryDef.name))
    unfold projectResults
    cases m.queryDef.returnsList with
    | true =>
      show nullMaskedFields access.masked (.arr _) = .arr _
      rw [nullMaskedFields, nullMaskedItems_map, map_map, map_map]
      rfl
    | false => cases rows <;> rfl

theorem respond_eq : respond x render ctx state m =
    rowRequest x ctx m >>= fun r => state r >>= rowResponse x ctx m render := by
  simp only [respond, computeResponse, Traced.outcome_bind, Traced.outcome_lift, Traced.liftM_eq,
    securedRequest_eq, executeWithProjection, Traced.outcome_call]
  cases rowRequest x ctx m with
  | error e => rfl
  | ok r =>
    show (runProjection render state _ >>= fun rows => (overState x render state).securedResponse m ctx rows) =
      state r >>= rowResponse x ctx m render
    unfold runProjection
    dsimp only
    cases state r with
    | error e => rfl
    | ok rows =>
      show (rows.mapM (selectColumn render (projectionHint x.charCase x.schema .postgresql x.defaultStrategy m))
        >>= _) = rowResponse x ctx m render rows
      rw [Outcome.mapM_of_forall fun data _ =>
        selectColumn_eq x.charCase render x.schema .postgresql x.defaultStrategy m data]
      exact securedResponse_eq rows

/-- Queries that get the same response from every state ask for the same rows. -/
theorem rowRequest_eq (hsame : ∀ state, respond x render ctx state m = respond x render ctx state m') :
    rowRequest x ctx m = rowRequest x ctx m' := by
  simp only [respond_eq] at hsame
  cases h : rowRequest x ctx m with
  | error e =>
    cases h' : rowRequest x ctx m' with
    | error e' =>
      have heq := hsame fun _ => .ok []
      rw [h, h'] at heq
      exact congrArg error (error.inj heq)
    | ok r' =>
      -- the database may fail in two ways, the query in one
      have hfirst := hsame fun _ => .error (.internal "")
      have hsecond := hsame fun _ => .error (.internal "x")
      rw [h, h'] at hfirst hsecond
      have heq := hfirst.symm.trans hsecond
      exact absurd (error.inj heq) (by decide)
  | ok r =>
    cases h' : rowRequest x ctx m' with
    | error e' =>
      have hfirst := hsame fun _ => .error (.internal "")
      have hsecond := hsame fun _ => .error (.internal "x")
      rw [h, h'] at hfirst hsecond
      have heq := hfirst.trans hsecond.symm
      exact absurd (error.inj heq) (by decide)
    | ok r' =>
      by_contra hne
      classical
      have heq := hsame fun q => .error (.internal (if q = r then "" else "x"))
      rw [h, h'] at heq
      have hmessage := FraiseQLError.internal.inj (error.inj heq)
      rw [if_pos rfl, if_neg fun hr => hne (congrArg ok hr.symm)] at hmessage
      exact absurd hmessage (by decide)

theorem rowResponse_ok {access : FieldAccess} (h : accessOf x ctx m = .ok access) (rows : List Json) :
    rowResponse x ctx m render rows = .ok (wrapInDataEnvelope
      (if m.queryDef.returnsList then
        .arr (rows.map (shown x.charCase render x.parseJson x.schema m access))
      else (rows.map (shown x.charCase render x.parseJson x.schema m access)).head?.getD .null) m.queryDef.name) := by
  rw [rowResponse, h]
  rfl

theorem rowResponse_error {e : FraiseQLError} (h : accessOf x ctx m = .error e) (rows : List Json) :
    rowResponse x ctx m render rows = .error e := by
  rw [rowResponse, h]
  rfl

theorem wrapInDataEnvelope_inj {a b : Json} {name : String}
    (h : wrapInDataEnvelope a name = wrapInDataEnvelope b name) : a = b := by
  simpa [wrapInDataEnvelope] using h

/-- The rows get the same response, whatever they are, exactly when the queries show alike. -/
theorem rowResponse_eq_iff (hdef : m.queryDef = m'.queryDef) :
    (∀ rows, rowResponse x ctx m render rows = rowResponse x ctx m' render rows) ↔ ShowAlike x ctx m m' := by
  cases h : accessOf x ctx m with
  | error e =>
    cases h' : accessOf x ctx m' with
    | error e' =>
      simp only [rowResponse_error h, rowResponse_error h', ShowAlike, h, h']
      simp [eq_comm]
    | ok access' =>
      simp only [rowResponse_error h, rowResponse_ok h', ShowAlike, h, h']
      simp
  | ok access =>
    cases h' : accessOf x ctx m' with
    | error e' =>
      simp only [rowResponse_ok h, rowResponse_error h', ShowAlike, h, h']
      simp
    | ok access' =>
      have hshown := @shown_eq_iff x.charCase render x.parseJson x.schema m m' ctx access access' hdef h h'
      have halike : ShowAlike x ctx m m' ↔ SelectionsAgree x.schema ctx m m' := by
        simp [ShowAlike, h, h']
      rw [halike, ← hshown]
      constructor
      · intro hsame data
        have hrow := hsame [data]
        rw [rowResponse_ok h, rowResponse_ok h', ← hdef] at hrow
        have hresult := wrapInDataEnvelope_inj (ok.inj hrow)
        cases hlist : m.queryDef.returnsList with
        | true =>
          rw [hlist] at hresult
          exact (cons.inj (Json.arr.inj hresult)).1
        | false =>
          rw [hlist] at hresult
          exact hresult
      · intro hsame rows
        rw [rowResponse_ok h, rowResponse_ok h', ← hdef, map_congr_left fun data _ => hsame data]

end Response

/-! ### What the tokens determine -/

/-- The tokens of the arguments. -/
def argumentTokens (arguments : List (String × Json)) : List HashToken :=
  arguments.flatMap fun (key, value) => [.str key, .str value.text]

theorem length_argumentTokens (arguments : List (String × Json)) :
    (argumentTokens arguments).length = 2 * arguments.length := by
  induction arguments with
  | nil => rfl
  | cons a arguments ih =>
    rw [argumentTokens, flatMap_cons, length_append, ← argumentTokens, ih]
    show 2 + 2 * arguments.length = 2 * (arguments.length + 1)
    omega

variable {arguments arguments' : List (String × Json)}

theorem argumentTokens_inj (hheld : ∀ a ∈ arguments, Held a.2)
    (hheld' : ∀ a ∈ arguments', Held a.2) (h : argumentTokens arguments = argumentTokens arguments') :
    arguments = arguments' := by
  induction arguments generalizing arguments' with
  | nil =>
    cases arguments' with
    | nil => rfl
    | cons a' arguments' => cases h
  | cons a arguments ih =>
    cases arguments' with
    | nil => cases h
    | cons a' arguments' =>
      obtain ⟨key, value⟩ := a
      obtain ⟨key', value'⟩ := a'
      obtain ⟨hkey, htext⟩ := cons.inj h
      obtain ⟨htext, hrest⟩ := cons.inj htext
      have hvalue : value = value' := Json.text_injective (hheld _ mem_cons_self)
        (hheld' _ mem_cons_self) (HashToken.str.inj htext)
      rw [HashToken.str.inj hkey, hvalue, ih (fun a ha => hheld a (mem_cons_of_mem _ ha))
        (fun a ha => hheld' a (mem_cons_of_mem _ ha)) hrest]

/-- Arguments whose tokens end another list's end that list. -/
theorem suffix_of_tokens {names : List HashToken}
    (hheld : ∀ a ∈ arguments, Held a.2) (hheld' : ∀ a ∈ arguments', Held a.2)
    (h : argumentTokens arguments = names ++ argumentTokens arguments') :
    ∃ more, arguments = more ++ arguments' := by
  have hlength := congrArg length h
  rw [length_append, length_argumentTokens, length_argumentTokens] at hlength
  let k := arguments.length - arguments'.length
  have hsplit : argumentTokens (arguments.take k) ++ argumentTokens (arguments.drop k) =
      names ++ argumentTokens arguments' := by
    rw [← h, argumentTokens, argumentTokens, ← flatMap_append, take_append_drop]
    rfl
  have hcount : (argumentTokens (arguments.take k)).length = names.length := by
    rw [length_argumentTokens, length_take]
    omega
  obtain ⟨-, hdrop⟩ := append_inj hsplit hcount
  refine ⟨arguments.take k, ?_⟩
  rw [← argumentTokens_inj (fun a ha => hheld a (mem_of_mem_drop ha)) hheld' hdrop, take_append_drop]

/-- With the same tokens, the arguments of one query are more arguments followed by those of the other. -/
theorem arguments_of_tokens {m m' : QueryMatch} (hheld : ∀ a ∈ m.arguments, Held a.2)
    (hheld' : ∀ a ∈ m'.arguments, Held a.2) (h : responseKeyTokens m = responseKeyTokens m') :
    (∃ more, m.arguments = more ++ m'.arguments) ∨ ∃ more, m'.arguments = more ++ m.arguments := by
  have htokens := (cons.inj h).2
  obtain ⟨names, -, hrest⟩ | ⟨names, -, hrest⟩ := append_eq_append_iff.mp htokens
  · exact .inl (suffix_of_tokens hheld hheld' hrest)
  · exact .inr (suffix_of_tokens hheld' hheld hrest)

/-! ### Clauses tell more arguments apart -/

mutual

/-- The number of nodes of a clause. -/
def nodes : WhereClause → Nat
  | .field _ _ _ => 1
  | .nativeField _ _ _ _ => 1
  | .not clause => nodes clause + 1
  | .and clauses => nodesAll clauses + 1
  | .or clauses => nodesAll clauses + 1

def nodesAll : List WhereClause → Nat
  | [] => 0
  | clause :: clauses => nodes clause + nodesAll clauses

end

def nodesOf (clause : Option WhereClause) : Nat := (clause.map nodes).getD 0

theorem nodes_pos (clause : WhereClause) : 0 < nodes clause := by
  cases clause <;> simp [nodes]

theorem nodesAll_append (clauses clauses' : List WhereClause) :
    nodesAll (clauses ++ clauses') = nodesAll clauses + nodesAll clauses' := by
  induction clauses with
  | nil => simp [nodesAll]
  | cons clause clauses ih => simp [nodesAll, ih, Nat.add_assoc]

theorem nodesOf_conjunction (clauses : List WhereClause) :
    nodesOf (conjunction clauses) = nodesAll clauses + if 2 ≤ clauses.length then 1 else 0 := by
  match clauses with
  | [] => rfl
  | [clause] => rfl
  | first :: second :: rest => simp [conjunction, nodesOf, nodes]

theorem nodesAll_explicit (definedArgs : List String) (providedArgs : List (String × Json))
    (nativeColumns : List (String × String)) :
    nodesAll (explicitConditions definedArgs providedArgs nativeColumns) =
      (explicitConditions definedArgs providedArgs nativeColumns).length := by
  unfold explicitConditions
  induction definedArgs.filter fun name => !autoParamNames.contains name with
  | nil => rfl
  | cons name names ih =>
    rw [filterMap_cons]
    cases providedArgs.lookup name with
    | none => exact ih
    | some value =>
      have hone : nodes (injectParamWhereClause name value nativeColumns) = 1 := by
        unfold injectParamWhereClause
        cases nativeColumns.lookup name <;> rfl
      show nodes _ + nodesAll _ = _ + 1
      rw [hone, ih]
      omega

/-- The size of a composed clause grows with the filter and with the explicit conditions. -/
theorem nodesOf_combine (secured user : Option WhereClause) (definedArgs : List String)
    (providedArgs : List (String × Json)) (nativeColumns : List (String × String)) :
    let explicit := (explicitConditions definedArgs providedArgs nativeColumns).length
    nodesOf (combineExplicitArgWhere (composeWhere secured user) definedArgs providedArgs nativeColumns) =
      nodesOf secured + nodesOf user + explicit + (if secured.isSome ∧ user.isSome then 1 else 0) +
        (if 1 ≤ explicit ∧ 2 ≤ explicit + (if secured.isSome ∨ user.isSome then 1 else 0) then 1 else 0) := by
  intro explicit
  have hcompose : nodesOf (composeWhere secured user) =
      nodesOf secured + nodesOf user + if secured.isSome ∧ user.isSome then 1 else 0 := by
    cases secured <;> cases user <;> simp [composeWhere, nodesOf, nodes, nodesAll]
  have hlist : (composeWhere secured user).toList.length = if secured.isSome ∨ user.isSome then 1 else 0 := by
    cases secured <;> cases user <;> rfl
  have hall : nodesAll (composeWhere secured user).toList = nodesOf (composeWhere secured user) := by
    cases composeWhere secured user <;> simp [nodesOf, nodesAll]
  unfold combineExplicitArgWhere
  by_cases hempty : explicitConditions definedArgs providedArgs nativeColumns = []
  · have hzero : explicit = 0 := by
      show (explicitConditions definedArgs providedArgs nativeColumns).length = 0
      rw [hempty]
      rfl
    rw [hempty, hzero]
    show nodesOf (composeWhere secured user) = _
    rw [hcompose, if_neg (c := 1 ≤ 0 ∧ _) (by omega)]
    omega
  · have hpos : 1 ≤ explicit := length_pos_iff.mpr hempty
    have hlength : (explicitConditions definedArgs providedArgs nativeColumns).length = explicit := rfl
    show nodesOf (if List.isEmpty _ then _ else conjunction _) = _
    rw [if_neg (by rwa [List.isEmpty_iff]), nodesOf_conjunction, nodesAll_append, hall, hcompose, nodesAll_explicit,
      List.length_append, hlist, hlength, Nat.add_comm (if secured.isSome ∨ user.isSome then 1 else 0) explicit]
    simp only [hpos, true_and]
    omega

/-! ### More arguments ask for other rows -/

section Arguments

variable {x : Executor} {ctx : SecurityContext} {m m' : QueryMatch} {more : List (String × Json)}

theorem lookup_append (name : String) (more arguments : List (String × Json)) :
    (more ++ arguments).lookup name = (more.lookup name).or (arguments.lookup name) := by
  induction more with
  | nil => rfl
  | cons a more ih =>
    obtain ⟨key, value⟩ := a
    rw [cons_append, lookup_cons, lookup_cons, ih]
    cases name == key <;> rfl

variable {name : String}

theorem mem_of_lookup {arguments : List (String × Json)} {value : Json}
    (h : arguments.lookup name = some value) : (name, value) ∈ arguments := by
  induction arguments with
  | nil => cases h
  | cons a arguments ih =>
    obtain ⟨key, v⟩ := a
    rw [lookup_cons] at h
    cases hkey : name == key with
    | true =>
      rw [hkey] at h
      rw [eq_of_beq hkey, Option.some.inj h]
      exact mem_cons_self
    | false =>
      rw [hkey] at h
      exact mem_cons_of_mem _ (ih h)

/-- The further arguments come before the others in key order. -/
theorem lookup_none_of_more (h : m.arguments = more ++ m'.arguments) {later : String}
    (hname : (more.lookup name).isSome) (hle : later ≤ name) : m'.arguments.lookup later = none := by
  obtain ⟨value, hvalue⟩ := Option.isSome_iff_exists.mp hname
  rw [Option.eq_none_iff_forall_ne_some]
  intro other hother
  have hsorted := m.sorted
  rw [h] at hsorted
  have hlt := (pairwise_append.mp hsorted).2.2 _ (mem_of_lookup hvalue) _ (mem_of_lookup hother)
  exact absurd hlt (not_lt.mpr hle)

theorem sameArgument_of_more (h : m.arguments = more ++ m'.arguments)
    (hname : more.lookup name = none) : SameArgument m m' name := by
  rw [SameArgument, h, lookup_append, hname]
  rfl

theorem explicit_of_more (h : m.arguments = more ++ m'.arguments) (definedArgs : List String)
    (natives : List (String × String)) :
    (explicitConditions definedArgs m'.arguments natives).length ≤
        (explicitConditions definedArgs m.arguments natives).length ∧
      ((explicitConditions definedArgs m'.arguments natives).length =
          (explicitConditions definedArgs m.arguments natives).length →
        ∀ name ∈ definedArgs, name ∉ autoParamNames → SameArgument m m' name) := by
  have hnames : ∀ name, name ∈ definedArgs ∧ name ∉ autoParamNames ↔
      name ∈ definedArgs.filter fun name => !autoParamNames.contains name := by
    intro name
    simp
  suffices hlist : ∀ names : List String,
      let conditions (arguments : List (String × Json)) := names.filterMap fun name =>
        (arguments.lookup name).map fun value => injectParamWhereClause name value natives
      (conditions m'.arguments).length ≤ (conditions m.arguments).length ∧
        ((conditions m'.arguments).length = (conditions m.arguments).length →
          ∀ name ∈ names, SameArgument m m' name) by
    obtain ⟨hle, hsame⟩ := hlist (definedArgs.filter fun name => !autoParamNames.contains name)
    exact ⟨hle, fun heq name hmem hauto => hsame heq name ((hnames name).mp ⟨hmem, hauto⟩)⟩
  intro names
  induction names with
  | nil => exact ⟨le_refl _, fun _ _ hmem => nomatch hmem⟩
  | cons name names ih =>
    dsimp only at ih ⊢
    obtain ⟨hle, hsame⟩ := ih
    simp only [filterMap_cons]
    cases hmore : more.lookup name with
    | none =>
      have harg := sameArgument_of_more h hmore
      have hlookup : m.arguments.lookup name = m'.arguments.lookup name := harg
      rw [hlookup]
      cases m'.arguments.lookup name with
      | none =>
        refine ⟨hle, fun heq other hmem => ?_⟩
        obtain rfl | hmem := mem_cons.mp hmem
        · exact harg
        · exact hsame heq other hmem
      | some value =>
        refine ⟨Nat.succ_le_succ hle, fun heq other hmem => ?_⟩
        obtain rfl | hmem := mem_cons.mp hmem
        · exact harg
        · exact hsame (Nat.succ.inj heq) other hmem
    | some value =>
      have hnone : m'.arguments.lookup name = none :=
        lookup_none_of_more h (by rw [hmore]; rfl) (le_refl name)
      have hsome : m.arguments.lookup name = some value := by
        rw [h, lookup_append, hmore]
        rfl
      rw [hnone, hsome]
      refine ⟨Nat.le_succ_of_le hle, fun heq => ?_⟩
      exact absurd heq (Nat.ne_of_lt (Nat.lt_succ_of_le hle))

variable {source : String} {secured user : Option WhereClause}

section

variable (hsecurity : security x ctx m.queryDef = .ok (source, secured))
include hsecurity

theorem rowRequest_ok {order : Option (List OrderByClause)}
    (hfilter : filterOf x m = .ok user) (horder : orderOf x m = .ok order) :
    rowRequest x ctx m = .ok ⟨source, combineExplicitArgWhere (composeWhere secured user) m.queryDef.arguments
      m.arguments m.queryDef.nativeColumns, limitOf m, offsetOf m, order⟩ := by
  rw [rowRequest, hsecurity, hfilter, horder]
  rfl

theorem rowRequest_filter {e : FraiseQLError}
    (hfilter : filterOf x m = .error e) : rowRequest x ctx m = .error e := by
  rw [rowRequest, hsecurity, hfilter]
  rfl

theorem rowRequest_order {e : FraiseQLError}
    (hfilter : filterOf x m = .ok user) (horder : orderOf x m = .error e) : rowRequest x ctx m = .error e := by
  rw [rowRequest, hsecurity, hfilter, horder]
  rfl

end

theorem filterOf_eq (hdef : m.queryDef = m'.queryDef)
    (h : m.queryDef.autoParams.hasWhere = true → SameArgument m m' "where") : filterOf x m = filterOf x m' := by
  rw [filterOf, filterOf, ← hdef]
  unfold userWhere
  split_ifs with hwhere
  · rw [h hwhere]
  · rfl

theorem orderOf_eq (hdef : m.queryDef = m'.queryDef)
    (h : m.queryDef.autoParams.hasOrderBy = true → SameArgument m m' "orderBy") : orderOf x m = orderOf x m' := by
  rw [orderOf, orderOf, ← hdef, whenEnabled, whenEnabled]
  split_ifs with horder
  · rw [h horder]
  · rfl

theorem filterOf_none (h : m.arguments.lookup "where" = none) : filterOf x m = .ok none := by
  rw [filterOf, h]
  exact userWhere_none _ _

theorem orderOf_none (h : m.arguments.lookup "orderBy" = none) : orderOf x m = .ok none := by
  rw [orderOf, h, whenEnabled, ite_self]
  rfl

section

variable (h : m.arguments = more ++ m'.arguments)
include h

/-- A filter among the further arguments makes the clause larger. -/
theorem where_of_rowRequest (hdef : m.queryDef = m'.queryDef)
    {secured : Option WhereClause} (hsecurity : security x ctx m.queryDef = .ok (source, secured))
    (hrows : rowRequest x ctx m = rowRequest x ctx m') :
    m.queryDef.autoParams.hasWhere = true → SameArgument m m' "where" := by
  intro hwhere
  cases hmore : more.lookup "where" with
  | none => exact sameArgument_of_more h hmore
  | some value =>
    exfalso
    have hsome : (more.lookup "where").isSome := by
      rw [hmore]
      rfl
    have hfilter' := filterOf_none (x := x) (lookup_none_of_more h hsome (le_refl "where"))
    have hlater : m'.arguments.lookup "orderBy" = none := lookup_none_of_more h hsome (by decide)
    have horder' := orderOf_none (x := x) hlater
    rw [rowRequest_ok (hdef ▸ hsecurity) hfilter' horder'] at hrows
    have hlookup : m.arguments.lookup "where" = some value := by
      rw [h, lookup_append, hmore]
      rfl
    cases hfilter : filterOf x m with
    | error e =>
      rw [rowRequest_filter hsecurity hfilter] at hrows
      cases hrows
    | ok user =>
      have huser : ∃ clause, user = some clause := by
        rw [filterOf, hlookup, userWhere, if_pos hwhere] at hfilter
        rw [Outcome.map_eq_ok] at hfilter
        obtain ⟨clause, -, rfl⟩ := hfilter
        exact ⟨clause, rfl⟩
      obtain ⟨clause, rfl⟩ := huser
      cases horder : orderOf x m with
      | error e =>
        rw [rowRequest_order hsecurity hfilter horder] at hrows
        cases hrows
      | ok order =>
        rw [rowRequest_ok hsecurity hfilter horder] at hrows
        have hnodes := congrArg (fun r => nodesOf r.whereClause) (ok.inj hrows)
        dsimp only at hnodes
        rw [nodesOf_combine, nodesOf_combine, ← hdef] at hnodes
        have hle := (explicit_of_more h m.queryDef.arguments m.queryDef.nativeColumns).1
        have hpos : 0 < nodesOf (some clause) := nodes_pos clause
        have hnone : nodesOf none = 0 := rfl
        cases secured with
        | none =>
          simp only [Option.isSome_none, Option.isSome_some, Bool.false_eq_true, false_and, false_or,
            if_true, if_false, hnone] at hnodes
          split_ifs at hnodes <;> omega
        | some s =>
          simp only [Option.isSome_none, Option.isSome_some, Bool.false_eq_true, and_false, and_true, true_or,
            if_true, if_false, hnone] at hnodes
          split_ifs at hnodes <;> omega

/-- An order among the further arguments is an order. -/
theorem orderBy_of_rowRequest (hdef : m.queryDef = m'.queryDef) {secured user : Option WhereClause}
    (hsecurity : security x ctx m.queryDef = .ok (source, secured)) (hfilter : filterOf x m = .ok user)
    (hfilter' : filterOf x m' = .ok user) (hrows : rowRequest x ctx m = rowRequest x ctx m') :
    m.queryDef.autoParams.hasOrderBy = true → SameArgument m m' "orderBy" := by
  intro henabled
  cases hmore : more.lookup "orderBy" with
  | none => exact sameArgument_of_more h hmore
  | some value =>
    exfalso
    have hsome : (more.lookup "orderBy").isSome := by
      rw [hmore]
      rfl
    have horder' := orderOf_none (x := x) (lookup_none_of_more h hsome (le_refl "orderBy"))
    rw [rowRequest_ok (hdef ▸ hsecurity) hfilter' horder'] at hrows
    have hlookup : m.arguments.lookup "orderBy" = some value := by
      rw [h, lookup_append, hmore]
      rfl
    cases horder : orderOf x m with
    | error e =>
      rw [rowRequest_order hsecurity hfilter horder] at hrows
      cases hrows
    | ok order =>
      rw [rowRequest_ok hsecurity hfilter horder] at hrows
      have hnone := congrArg RowRequest.orderBy (ok.inj hrows)
      rw [orderOf, hlookup, henabled, whenEnabled, if_pos rfl, orderByArg, Outcome.map_eq_ok] at horder
      obtain ⟨clauses, -, rfl⟩ := horder
      cases hnone

/-- The same rows: every other argument that counts is the same too. -/
theorem rest_of_rowRequest (hdef : m.queryDef = m'.queryDef)
    {secured user : Option WhereClause} {order : Option (List OrderByClause)}
    (hsecurity : security x ctx m.queryDef = .ok (source, secured)) (hfilter : filterOf x m = .ok user)
    (hfilter' : filterOf x m' = .ok user) (horder : orderOf x m = .ok order) (horder' : orderOf x m' = .ok order)
    (hrows : rowRequest x ctx m = rowRequest x ctx m') :
    (∀ name ∈ m.queryDef.arguments, name ∉ autoParamNames → SameArgument m m' name) ∧ limitOf m = limitOf m' ∧
      offsetOf m = offsetOf m' := by
  rw [rowRequest_ok hsecurity hfilter horder, rowRequest_ok (hdef ▸ hsecurity) hfilter' horder'] at hrows
  have hrequest := ok.inj hrows
  refine ⟨?_, congrArg RowRequest.limit hrequest, congrArg RowRequest.offset hrequest⟩
  obtain ⟨hle, hsame⟩ := explicit_of_more h m.queryDef.arguments m.queryDef.nativeColumns
  apply hsame
  have hnodes := congrArg (fun r => nodesOf r.whereClause) hrequest
  dsimp only at hnodes
  rw [nodesOf_combine, nodesOf_combine, ← hdef] at hnodes
  split_ifs at hnodes <;> omega

theorem sameRows_of_more (hdef : m.queryDef = m'.queryDef)
    {secured : Option WhereClause} (hsecurity : security x ctx m.queryDef = .ok (source, secured))
    (hrows : rowRequest x ctx m = rowRequest x ctx m') : SameRows x m m' := by
  have hwhere := where_of_rowRequest h hdef hsecurity hrows
  refine ⟨hwhere, ?_⟩
  have hfilters := filterOf_eq (x := x) hdef hwhere
  cases hfilter : filterOf x m with
  | error e => exact .inl ⟨e, rfl⟩
  | ok user =>
    rw [hfilter] at hfilters
    have horderBy := orderBy_of_rowRequest h hdef hsecurity hfilter hfilters.symm hrows
    refine .inr ⟨horderBy, ?_⟩
    have horders := orderOf_eq (x := x) hdef horderBy
    cases horder : orderOf x m with
    | error e => exact .inl ⟨e, rfl⟩
    | ok order =>
      rw [horder] at horders
      exact .inr (rest_of_rowRequest h hdef hsecurity hfilter hfilters.symm horder horders.symm hrows)

end

theorem sameRows_comm (hdef : m.queryDef = m'.queryDef) (h : SameRows x m' m) : SameRows x m m' := by
  obtain ⟨hwhere, hrest⟩ := h
  rw [← hdef] at hwhere hrest
  have hwhere' := fun henabled => (hwhere henabled).symm
  refine ⟨hwhere', ?_⟩
  rw [filterOf_eq hdef hwhere']
  obtain hfilter | ⟨horderBy, hrest⟩ := hrest
  · exact .inl hfilter
  · have horderBy' := fun henabled => (horderBy henabled).symm
    refine .inr ⟨horderBy', ?_⟩
    rw [orderOf_eq hdef horderBy']
    obtain horder | ⟨hnames, hlimit, hoffset⟩ := hrest
    · exact .inl horder
    · exact .inr ⟨fun name hmem hauto => (hnames name hmem hauto).symm, hlimit.symm, hoffset.symm⟩

/-- With the same tokens, the same rows are asked for only with the same arguments. -/
theorem sameRows_of_tokens (hheld : ∀ a ∈ m.arguments, Held a.2) (hheld' : ∀ a ∈ m'.arguments, Held a.2)
    (htokens : responseKeyTokens m = responseKeyTokens m') (hdef : m.queryDef = m'.queryDef)
    {secured : Option WhereClause} (hsecurity : security x ctx m.queryDef = .ok (source, secured))
    (hrows : rowRequest x ctx m = rowRequest x ctx m') : SameRows x m m' := by
  obtain ⟨more, hmore⟩ | ⟨more, hmore⟩ := arguments_of_tokens hheld hheld' htokens
  · exact sameRows_of_more hmore hdef hsecurity hrows
  · exact sameRows_comm hdef (sameRows_of_more hmore hdef.symm (hdef ▸ hsecurity) hrows.symm)

theorem explicitConditions_eq {definedArgs : List String}
    (h : ∀ name ∈ definedArgs, name ∉ autoParamNames → SameArgument m m' name) (natives : List (String × String)) :
    explicitConditions definedArgs m.arguments natives = explicitConditions definedArgs m'.arguments natives := by
  unfold explicitConditions
  apply filterMap_congr
  intro name hname
  rw [mem_filter] at hname
  rw [h name hname.1 (by simpa using hname.2)]

theorem rowRequest_of_sameRows (hdef : m.queryDef = m'.queryDef) (h : SameRows x m m') :
    rowRequest x ctx m = rowRequest x ctx m' := by
  obtain ⟨hwhere, hrest⟩ := h
  have hfilter := filterOf_eq (x := x) hdef hwhere
  rw [rowRequest, rowRequest, ← hdef, ← hfilter]
  cases security x ctx m.queryDef with
  | error e => rfl
  | ok parts =>
    cases hrefused : filterOf x m with
    | error e => rfl
    | ok user =>
      obtain ⟨e, he⟩ | ⟨horderBy, hrest⟩ := hrest
      · rw [hrefused] at he
        cases he
      · rw [← orderOf_eq hdef horderBy]
        cases horder : orderOf x m with
        | error e => rfl
        | ok order =>
          obtain ⟨e, he⟩ | ⟨hnames, hlimit, hoffset⟩ := hrest
          · rw [horder] at he
            cases he
          · unfold combineExplicitArgWhere
            rw [explicitConditions_eq hnames, hlimit, hoffset]

end Arguments

/-! ### Exactly when the key is sound -/

section Soundness

variable {x : Executor} {render : Json → String} {ctx : SecurityContext} {m m' : QueryMatch}

theorem rowRequest_error (h : (∃ e, security x ctx m.queryDef = .error e) ∨ (∃ e, filterOf x m = .error e) ∨
    ∃ e, orderOf x m = .error e) : ∃ e, rowRequest x ctx m = .error e := by
  rw [rowRequest]
  cases hsecurity : security x ctx m.queryDef with
  | error e => exact ⟨e, rfl⟩
  | ok parts =>
    cases hfilter : filterOf x m with
    | error e => exact ⟨e, rfl⟩
    | ok user =>
      cases horder : orderOf x m with
      | error e => exact ⟨e, rfl⟩
      | ok order =>
        rw [hsecurity, hfilter, horder] at h
        obtain ⟨e, he⟩ | ⟨e, he⟩ | ⟨e, he⟩ := h <;> cases he

theorem respond_of_alike (hdef : m.queryDef = m'.queryDef) (h : Alike x ctx m m') (state : State) :
    respond x render ctx state m = respond x render ctx state m' := by
  obtain ⟨e, hsecurity⟩ | ⟨hrows, hrest⟩ := h
  · rw [respond_eq, respond_eq, rowRequest, rowRequest, ← hdef, hsecurity]
    rfl
  · have hrequest : rowRequest x ctx m = rowRequest x ctx m' := rowRequest_of_sameRows hdef hrows
    rw [respond_eq, respond_eq, ← hrequest]
    obtain hfilter | horder | hshow := hrest
    · obtain ⟨e, he⟩ : ∃ e, rowRequest x ctx m = .error e := rowRequest_error (.inr (.inl hfilter))
      rw [he]
      rfl
    · obtain ⟨e, he⟩ : ∃ e, rowRequest x ctx m = .error e := rowRequest_error (.inr (.inr horder))
      rw [he]
      rfl
    · have hresponse : rowResponse x ctx m render = rowResponse x ctx m' render :=
        funext ((rowResponse_eq_iff hdef).mpr hshow)
      rw [hresponse]

end Soundness

/-! ### Users by `id` and `name` -/

def usersQuery : QueryDefinition :=
  ⟨"users", "User", true, [], some "v_user", ⟨false, false, false, false⟩, false, none, .int64, [], none, []⟩

/-- `users` with some of its fields. -/
def usersMatch (fields : List String) : QueryMatch where
  queryDef := usersQuery
  selections := [.mk "users" none [] (fields.map fun name => .mk name none [] [])]
  arguments := []
  sorted := QueryMatch.sorted_nil

def oneUser : State := fun _ => .ok [.obj [("id", .str "u1"), ("name", .str "Ada")]]

theorem held_usersMatch (fields : List String) : ∀ a ∈ (usersMatch fields).arguments, Held a.2 := by
  intro a ha
  cases ha

theorem users_agree : SelectionsAgree plainExecutor.schema tenantUser (usersMatch ["id", "name"])
    (usersMatch ["name", "id"]) := by
  refine ⟨?_, .inl rfl, ?_⟩
  · intro key
    show Answered key [.mk "id" none [] [], .mk "name" none [] []] ↔
      Answered key [.mk "name" none [] [], .mk "id" none [] []]
    simp only [answered_cons]
    tauto
  · show AllAgree _ _ _ 0 _ [.mk "id" none [] [], .mk "name" none [] []]
      [.mk "name" none [] [], .mk "id" none [] []]
    rw [AllAgree, AllAgree, AllAgree]
    refine ⟨fun _ _ _ => ⟨.mk "id" none [] [], rfl, ?_⟩, fun _ _ _ => ⟨.mk "name" none [] [], rfl, ?_⟩, trivial⟩
    · rw [Agree]
      exact Iff.rfl
    · rw [Agree]
      exact Iff.rfl

end FraiseQL.ResponseKey
