import FraiseQL.ExecutorSecurity
import FraiseQL.SelectedPath

/-! Field access on the authenticated read path. The check sees the response keys under the root and looks them up
among the fields of the returned type: a field below them, a field under an alias and the nodes of a Relay page pass
it unseen, and a cached response is not checked again. Access control is complete for a request exactly when every
field that the user may not read stands under a key that is masked itself, or where no value is put. -/

namespace FraiseQL.FieldAccessControl

open MapEntries ProjectionPushdown ResponseRows Outcome Traced ResultProjector Executor List Except Json
open SelectionAgreement (nest)

/-! ### The property -/

/-- What a database answers; its rows are objects. -/
structure Database where
  read : ProjectionRequest → Except FraiseQLError (List Json)
  page : RelayPageRequest → Except FraiseQLError RelayPageResult
  read_rows : ∀ request rows, read request = .ok rows → ∀ row ∈ rows, ∃ entries, row = .obj entries
  page_rows : ∀ request result, page request = .ok result → ∀ row ∈ result.rows, ∃ entries, row = .obj entries

/-- A database that answers every request with the same rows. -/
def Database.constant (rows : List (List (String × Json))) : Database where
  read := fun _ => .ok (rows.map .obj)
  page := fun _ => .ok ⟨rows.map .obj, none⟩
  read_rows := by
    intro _ answered hanswered row hrow
    obtain rfl := Except.ok.inj hanswered
    obtain ⟨entries, -, rfl⟩ := List.mem_map.mp hrow
    exact ⟨entries, rfl⟩
  page_rows := by
    intro _ answered hanswered row hrow
    obtain rfl := Except.ok.inj hanswered
    obtain ⟨entries, -, rfl⟩ := List.mem_map.mp hrow
    exact ⟨entries, rfl⟩

/-- The executor over a database. -/
def withDatabase (x : Executor) (db : Database) : Executor :=
  { x with adapter := { x.adapter with executeWithProjection := db.read }, relay := x.relay.map fun _ => db.page }

/-- Whatever the database holds, a request that succeeds under security shows no field the user may not read. -/
def AccessControlled (x : Executor) (query : String) (vars : Option Json) (ctx : SecurityContext) : Prop :=
  ∀ db m response, x.matcher query vars = .ok m →
    ((withDatabase x db).executeRegularQueryWithSecurity query vars ctx).outcome = .ok response →
    Enforced x.schema ctx m response

/-! ### The condition -/

section Condition

variable (x : Executor) (query : String) (vars : Option Json) (ctx : SecurityContext) (m : QueryMatch)

/-- The request is matched and reaches the data. -/
structure Accepted : Prop where
  fresh : ctx.isExpired x.now = false
  matched : x.matcher query vars = .ok m
  role : hasRequiredRole m.queryDef ctx = true
  session : (x.injectSessionVariables ctx).outcome = .ok ()

/-- A key under the root is the name of a field that the user may not read and that rejects the query. -/
def Rejected : Prop :=
  ∃ key ∈ extractProjectionFields m, denied x.schema m.queryDef.returnType ctx key = true ∧
    ∃ f, fieldOf x.schema m.queryDef.returnType key = some f ∧ f.onDeny = .reject

/-- The first key of a path is masked, or no value is put under it. -/
def Covered : List String → Prop
  | [] => False
  | key :: path =>
    if key ∈ extractProjectionFields m then denied x.schema m.queryDef.returnType ctx key = true
    else ¬(key = "__typename" ∧ path = [] ∧ ResultProjector.wantsTypename m = true)

/-- A page puts values at the path: in the nodes of its edges, but not inside a cursor. -/
def OnPage (plan : Executor.RelayPlan) (path : List String) : Prop :=
  0 < plan.pageSize ∧ ∃ key rest, path = "edges" :: "node" :: key :: rest ∧
    (key = plan.request.cursorColumn → rest = [])

/-- The response that the cache has for the request. -/
def cachedResponse : Option Json := x.activeCache.bind fun cache => cache.get (x.responseCacheKey m ctx)

/-- Every field that the user may not read is to be masked, and all places of its values are `ok`. -/
def AllUnreadable (ok : List String → Prop) : Prop :=
  ∀ path f, Selected x.schema (rootPosition m.queryDef) m.rootFields path f → Unreadable x.schema ctx f →
    f.onDeny = .mask ∧ ok path

/-- When the request shows no field the user may not read. -/
def Shielded : Prop :=
  if m.queryDef.relay then
    ∀ plan, x.relayPlan m vars (some ctx) = .ok plan → AllUnreadable x ctx m fun path => ¬OnPage plan path
  else match cachedResponse x ctx m with
    | some response => Enforced x.schema ctx m response
    | none => (∃ request, x.securedRequest m ctx = .ok request) → Rejected x ctx m ∨
        AllUnreadable x ctx m (Covered x ctx m)

end Condition

/-! ### What the run returns -/

section Run

variable {x : Executor} {query : String} {vars : Option Json} {ctx : SecurityContext} {m : QueryMatch}
  {db : Database} {response : Json}

theorem executeCached_eq_ok : ((withDatabase x db).executeCached m ctx).outcome = .ok response ↔
    match cachedResponse x ctx m with
    | some cached => cached = response
    | none => ∃ request, x.securedRequest m ctx = .ok request ∧ ∃ rows, db.read request = .ok rows ∧
        x.securedResponse m ctx rows = .ok response := by
  have hcompute : ((withDatabase x db).computeResponse m ctx).outcome = .ok response ↔
      ∃ request, x.securedRequest m ctx = .ok request ∧ ∃ rows, db.read request = .ok rows ∧
        x.securedResponse m ctx rows = .ok response := by
    simp only [computeResponse, executeWithProjection, outcome_bind, outcome_lift,
      outcome_call, bind_eq_ok]
    exact Iff.rfl
  have hactive : (withDatabase x db).activeCache = x.activeCache := rfl
  have hget : ∀ cache : ResponseCache, cache.get ((withDatabase x db).responseCacheKey m ctx) =
      cache.get (x.responseCacheKey m ctx) := fun _ => rfl
  rw [executeCached, cachedResponse, hactive]
  cases hcache : x.activeCache with
  | none => exact hcompute
  | some cache =>
    dsimp only [Option.bind_some]
    rw [hget]
    cases hhit : cache.get (x.responseCacheKey m ctx) with
    | some cached => exact ⟨ok.inj, congrArg ok⟩
    | none =>
      rw [← hcompute]
      simp only [outcome_bind, outcome_call, outcome_pure, ok_bind]
      cases ((withDatabase x db).computeResponse m ctx).outcome <;> rfl

theorem run_eq_ok : ((withDatabase x db).executeRegularQueryWithSecurity query vars ctx).outcome = .ok response ↔
    ∃ m, Accepted x query vars ctx m ∧
      (if m.queryDef.relay then (withDatabase x db).executeRelayQuery m vars (some ctx)
        else (withDatabase x db).executeCached m ctx).outcome = .ok response := by
  have hmatcher : (withDatabase x db).matcher = x.matcher := rfl
  have hsession : (withDatabase x db).injectSessionVariables ctx = x.injectSessionVariables ctx := rfl
  have hnow : (withDatabase x db).now = x.now := rfl
  rw [executeRegularQueryWithSecurity, hmatcher, hsession, hnow]
  cases hexpired : ctx.isExpired x.now with
  | true =>
    refine iff_of_false nofun ?_
    rintro ⟨m, haccepted, -⟩
    cases hexpired.symm.trans haccepted.fresh
  | false =>
    simp only [Bool.false_eq_true, if_false, outcome_bind, outcome_lift, bind_eq_ok]
    constructor
    · rintro ⟨m, hmatch, h⟩
      refine ⟨m, ?_⟩
      cases hrole : hasRequiredRole m.queryDef ctx with
      | false =>
        rw [hrole] at h
        cases h
      | true =>
        rw [hrole, Bool.not_true, if_neg Bool.false_ne_true, outcome_bind, bind_eq_ok] at h
        obtain ⟨⟨⟩, hsession, h⟩ := h
        exact ⟨⟨hexpired, hmatch, hrole, hsession⟩, h⟩
    · rintro ⟨m, haccepted, h⟩
      refine ⟨m, haccepted.matched, ?_⟩
      rw [haccepted.role, Bool.not_true, if_neg Bool.false_ne_true, outcome_bind, haccepted.session]
      exact h

theorem relayPlan_withDatabase (ctx : Option SecurityContext) :
    (withDatabase x db).relayPlan m vars ctx =
      (x.relayPlan m vars ctx).map fun plan => { plan with relay := db.page } := by
  have hmap : ∀ {α : Type} (r : Except FraiseQLError α) (f : α → Except FraiseQLError Executor.RelayPlan),
      (r >>= f).map (fun plan => { plan with relay := db.page }) =
        r >>= fun a => (f a).map fun plan => { plan with relay := db.page } := by
    intro α r f
    cases r <;> rfl
  unfold relayPlan
  dsimp only
  split_ifs
  · rfl
  · have hrelay : (withDatabase x db).relay = x.relay.map fun _ => db.page := rfl
    simp only [hmap, hrelay]
    cases m.queryDef.sqlSource with
    | none => rfl
    | some view =>
      cases m.queryDef.relayCursorColumn with
      | none => rfl
      | some column => cases x.relay <;> rfl

end Run

/-! ### Rows under the check -/

section Rows

variable {x : Executor} {ctx : SecurityContext} {m : QueryMatch} {access : FieldAccess}

theorem classify_rejects {config : SecurityConfig} {fields : List FieldDefinition} {names : List String} :
    (classifyFieldAccess ctx config fields names).isOk = false ↔ ∃ key ∈ names, ∃ f,
      (fields.find? fun f => f.name = key) = some f ∧ canAccessField ctx config f = false ∧ f.onDeny = .reject := by
  induction names with
  | nil => exact ⟨nofun, nofun⟩
  | cons name names ih =>
    rw [classifyFieldAccess, exists_mem_cons_iff, ← ih]
    cases hfind : fields.find? fun f => f.name = name with
    | none => simp
    | some f =>
      cases haccess : canAccessField ctx config f with
      | true => simp [haccess]
      | false =>
        cases hdeny : f.onDeny with
        | mask => simp [haccess, hdeny]
        | reject => simp [haccess, hdeny, Except.isOk, Except.toBool]

theorem rejected_iff : (applyFieldRbacFiltering x.schema m.queryDef.returnType (extractProjectionFields m) ctx).isOk =
    false ↔ Rejected x ctx m := by
  unfold applyFieldRbacFiltering Rejected denied fieldOf
  cases x.schema.security with
  | none => simp [Except.isOk, Except.toBool]
  | some config =>
    cases x.schema.findType m.queryDef.returnType with
    | none => simp [Except.isOk, Except.toBool]
    | some typeDef =>
      have hfound : ∀ key, (((typeDef.fields.find? fun f => f.name = key).any fun f => !canAccessField ctx config f) =
          true ∧ ∃ f, typeDef.findField key = some f ∧ f.onDeny = .reject) ↔ ∃ f,
          (typeDef.fields.find? fun f => f.name = key) = some f ∧ canAccessField ctx config f = false ∧
            f.onDeny = .reject := by
        intro key
        unfold TypeDefinition.findField
        cases typeDef.fields.find? fun f => f.name = key with
        | none => simp
        | some f => simp
      simp only [Option.bind_some, hfound, ← classify_rejects]
      cases classifyFieldAccess ctx config typeDef.fields (extractProjectionFields m) <;> rfl

/-- The row of a response, from the row of the database. -/
def answeredRow (x : Executor) (m : QueryMatch) (access : FieldAccess) (entries : List (String × Json)) : Json :=
  nullMaskedFields access.masked
    ((ResultProjector.ofMatch x.parseJson (access.allowed ++ access.masked) m).projectJsonObject entries)

section

variable
  (haccess : applyFieldRbacFiltering x.schema m.queryDef.returnType (extractProjectionFields m) ctx = .ok access)
include haccess

theorem answeredRow_spec (entries : List (String × Json)) :
    ∃ shown, answeredRow x m access entries = .obj shown ∧ ∀ key, Json.lookup key shown =
      (if key ∈ extractProjectionFields m then ((Json.lookup key entries).map
          (ofMatch x.parseJson (access.allowed ++ access.masked) m).projectNestedValue).or
          (Json.lookup key (typenameEntries (typenameOf m)))
        else Json.lookup key (typenameEntries (typenameOf m))).map fun value =>
          if access.masked.contains key then .null else value := by
  rw [answeredRow, projectJsonObject_eq, nullMaskedFields]
  refine ⟨_, rfl, ?_⟩
  intro key
  have hfields : key ∈ (ofMatch x.parseJson (access.allowed ++ access.masked) m).fields ↔
      key ∈ extractProjectionFields m := (access_spec haccess key).1
  rw [lookup_masked, lookup_projectFields]
  simp only [hfields]
  rfl

variable {path : List String} {value : Json}

/-- Nothing but `null` stands at a covered path. -/
theorem at_covered (hcovered : Covered x ctx m path)
    {entries : List (String × Json)} (h : At (answeredRow x m access entries) path value) :
    value = .null := by
  cases path with
  | nil => cases hcovered
  | cons key path =>
    obtain ⟨shown, hshown, hlookup⟩ := answeredRow_spec haccess entries
    rw [hshown] at h
    obtain ⟨inner, hinner, h⟩ := h.of_obj
    rw [hlookup] at hinner
    obtain ⟨found, hfound, rfl⟩ := Option.map_eq_some_iff.mp hinner
    rw [Covered] at hcovered
    split_ifs at hcovered with hkey
    · rw [if_pos ((access_spec haccess key).2.mpr ⟨hkey, hcovered⟩)] at h
      exact h.of_null.2
    · rw [if_neg hkey, lookup_typenameEntries] at hfound
      obtain ⟨rfl, typename, htypename, rfl⟩ := hfound
      split_ifs at h with hmasked
      · exact h.of_null.2
      · obtain ⟨rfl, -⟩ := h.of_str
        rw [typenameOf] at htypename
        split_ifs at htypename with hwants
        exact absurd ⟨rfl, rfl, hwants⟩ hcovered

/-- A value can stand at every other path. -/
theorem at_uncovered {key : String} (huncovered : ¬Covered x ctx m (key :: path)) :
    ∃ value, At (answeredRow x m access [(key, nest path (.bool true))]) (key :: path) value ∧ value ≠ .null := by
  obtain ⟨shown, hshown, hlookup⟩ := answeredRow_spec haccess [(key, nest path (.bool true))]
  have hfound := hlookup key
  rw [hshown]
  rw [Covered] at huncovered
  split_ifs at huncovered with hkey
  · have hunmasked : ¬access.masked.contains key = true := fun hmasked =>
      huncovered ((access_spec haccess key).2.mp hmasked).2
    have hkeeps := keeps_projectNestedValue
      (ofMatch x.parseJson (access.allowed ++ access.masked) m)
    have hnest : (ofMatch x.parseJson (access.allowed ++ access.masked) m).projectNestedValue
        (nest path (.bool true)) = nest path (.bool true) := by
      cases path with
      | nil => rfl
      | cons first path => exact hkeeps.obj _
    rw [if_pos hkey, lookup_cons, if_pos rfl, Option.map_some, hnest, Option.some_or, Option.map_some,
      if_neg hunmasked] at hfound
    exact ⟨.bool true, .key hfound (.nested path _), by rintro ⟨⟩⟩
  · obtain ⟨rfl, rfl, hwants⟩ := not_not.mp huncovered
    have hunmasked : ¬access.masked.contains "__typename" = true := fun hmasked =>
      hkey ((access_spec haccess _).2.mp hmasked).1
    rw [if_neg hkey, typenameOf, if_pos hwants, typenameEntries, lookup_cons, if_pos rfl, Option.map_some,
      if_neg hunmasked] at hfound
    exact ⟨_, .key hfound (.here _), by rintro ⟨⟩⟩

end

/-- The answer of a query to the rows of the database. -/
def answer (x : Executor) (m : QueryMatch) (access : FieldAccess) (rows : List Json) : Json :=
  nullMaskedFields access.masked
    ((ResultProjector.ofMatch x.parseJson (access.allowed ++ access.masked) m).projectResults rows m.queryDef.returnsList)

theorem securedResponse_eq_ok {rows : List Json} {response : Json} : x.securedResponse m ctx rows = .ok response ↔
    ∃ access, applyFieldRbacFiltering x.schema m.queryDef.returnType (extractProjectionFields m) ctx = .ok access ∧
      wrapInDataEnvelope (answer x m access rows) m.queryDef.name = response := by
  unfold securedResponse
  simp only [bind_eq_ok, pure_eq_ok]
  refine exists_congr fun access => and_congr_right fun _ => ?_
  have hmasked : (if access.masked.isEmpty then
      (ofMatch x.parseJson (access.allowed ++ access.masked) m).projectResults rows m.queryDef.returnsList
      else answer x m access rows) = answer x m access rows := by
    split_ifs with hempty
    · rw [answer, isEmpty_iff.mp hempty, nullMaskedFields_nil]
    · rfl
  rw [← hmasked]
  rfl

/-- A value in an answer stands in one of its rows. -/
theorem at_answer {rows : List Json} (hrows : ∀ row ∈ rows, ∃ entries, row = .obj entries) {key : String}
    {value : Json} (h : At (answer x m access rows) (key :: path) value) :
    ∃ entries, At (answeredRow x m access entries) (key :: path) value := by
  unfold answer projectResults at h
  cases hlist : m.queryDef.returnsList with
  | true =>
    rw [hlist, if_pos rfl, nullMaskedFields, nullMaskedItems_map, map_map] at h
    obtain ⟨item, hitem, h⟩ := h.of_arr
    obtain ⟨row, hrow, rfl⟩ := mem_map.mp hitem
    obtain ⟨entries, rfl⟩ := hrows row hrow
    exact ⟨entries, h⟩
  | false =>
    rw [hlist, if_neg Bool.false_ne_true] at h
    cases rows with
    | nil => cases h.of_null.1
    | cons row rows =>
      obtain ⟨entries, rfl⟩ := hrows row mem_cons_self
      exact ⟨entries, h⟩

theorem at_answer_single {entries : List (String × Json)}
    (h : At (answeredRow x m access entries) path value) : At (answer x m access [.obj entries]) path value := by
  unfold answer projectResults
  split_ifs
  · rw [nullMaskedFields, nullMaskedItems_map]
    exact .item (mem_singleton_self _) h
  · exact h

end Rows

/-! ### Pages under no check -/

section Pages

variable {x : Executor} {d : QueryDefinition} {column : String}

/-- A value that serves as a cursor. -/
def cursorValue : CursorType → Json
  | .int64 => Json.ofNat 0
  | .uuid => .str ""

variable {path : List String} {value : Json}

theorem rowCursor_scalar {row : Json} {cursor : String} (h : x.rowCursor d column row = .ok cursor)
    (hat : At row (column :: path) value) : path = [] := by
  unfold rowCursor at h
  cases hat with
  | item => cases hcursor : d.relayCursorType <;> rw [hcursor] at h <;> cases h
  | @key entries _ inner _ _ hinner hat =>
    rw [show (obj entries).get? column = some inner from hinner] at h
    cases inner with
    | num n => exact hat.of_num
    | str s => exact hat.of_str.1
    | null => exact hat.of_null.1
    | bool b => exact hat.of_bool
    | arr items | obj entries => cases hcursor : d.relayCursorType <;> rw [hcursor] at h <;> cases h

theorem rowCursor_cursorValue (entries : List (String × Json)) : ∃ cursor,
    x.rowCursor d column (.obj ((column, cursorValue d.relayCursorType) :: entries)) = .ok cursor := by
  have hget : (obj ((column, cursorValue d.relayCursorType) :: entries)).get? column =
      some (cursorValue d.relayCursorType) := by
    show Json.lookup column _ = _
    rw [lookup_cons, if_pos rfl]
  unfold rowCursor
  rw [hget]
  cases d.relayCursorType with
  | int64 => exact ⟨_, rfl⟩
  | uuid => exact ⟨_, rfl⟩

variable {rows : List Json} {edges : List (String × Json)}

theorem edges_node (h : x.edges d column rows = .ok edges)
    {edge : Json} (hedge : edge ∈ edges.map Prod.snd) : ∃ row ∈ rows, ∃ cursor, x.rowCursor d column row = .ok cursor ∧
      edge = .obj [("cursor", .str cursor), ("node", row)] := by
  induction rows generalizing edges with
  | nil =>
    obtain rfl := ok.inj h
    cases hedge
  | cons row rows ih =>
    simp only [Executor.edges, bind_eq_ok, pure_eq_ok] at h
    obtain ⟨cursor, hcursor, rest, hrest, rfl⟩ := h
    rw [map_cons, mem_cons] at hedge
    obtain rfl | hedge := hedge
    · exact ⟨row, mem_cons_self, cursor, hcursor, rfl⟩
    · obtain ⟨row', hrow', hspec⟩ := ih hrest hedge
      exact ⟨row', mem_cons_of_mem row hrow', hspec⟩

/-- Rows with cursors make edges. -/
theorem edges_ok (h : ∀ row ∈ rows, ∃ cursor, x.rowCursor d column row = .ok cursor) :
    ∃ edges, x.edges d column rows = .ok edges ∧
      ∀ row ∈ rows, ∃ cursor, .obj [("cursor", .str cursor), ("node", row)] ∈ edges.map Prod.snd := by
  induction rows with
  | nil => exact ⟨[], rfl, nofun⟩
  | cons row rows ih =>
    obtain ⟨cursor, hcursor⟩ := h row mem_cons_self
    obtain ⟨rest, hrest, hnodes⟩ := ih fun row hrow => h row (mem_cons_of_mem _ hrow)
    refine ⟨(cursor, .obj [("cursor", .str cursor), ("node", row)]) :: rest, ?_, ?_⟩
    · rw [edges, hcursor, ok_bind, hrest]
      rfl
    · intro row' hrow'
      obtain rfl | hrow' := mem_cons.mp hrow'
      · exact ⟨cursor, mem_cons_self⟩
      · obtain ⟨cursor', hedge⟩ := hnodes row' hrow'
        exact ⟨cursor', mem_cons_of_mem _ hedge⟩

theorem optionalText_flat {text : Option String} (h : At (optionalText text) path value) : path = [] := by
  cases text with
  | none => exact h.of_null.1
  | some s => exact h.of_str.1

/-- A page has no values of fields but in the nodes of its edges. -/
theorem at_page (hedges : x.edges d column rows = .ok edges)
    {next previous : Bool} {total : Option (Option Nat)} (hlong : 3 ≤ path.length)
    (h : At (connection edges next previous total) path value) :
    ∃ key rest, path = "edges" :: "node" :: key :: rest ∧ (key = column → rest = []) ∧
      ∃ row ∈ rows, At row (key :: rest) value := by
  obtain ⟨first, second, key, rest, rfl⟩ : ∃ first second key rest, path = first :: second :: key :: rest := by
    match path, hlong with
    | first :: second :: key :: rest, _ => exact ⟨first, second, key, rest, rfl⟩
  obtain ⟨inner, hinner, h⟩ := h.of_obj
  rw [cons_append, lookup_cons] at hinner
  split_ifs at hinner with hfirst
  · obtain rfl := Option.some.inj hinner
    obtain ⟨edge, hedge, h⟩ := h.of_arr
    obtain ⟨row, hrow, cursor, hcursor, rfl⟩ := edges_node hedges hedge
    obtain ⟨node, hnode, h⟩ := h.of_obj
    rw [lookup_cons, lookup_cons] at hnode
    split_ifs at hnode with hleft hsecond
    · obtain rfl := Option.some.inj hnode
      cases h
    · obtain rfl := Option.some.inj hnode
      refine ⟨key, rest, by rw [← hfirst, ← hsecond], ?_, row, hrow, h⟩
      rintro rfl
      exact rowCursor_scalar hcursor h
    · cases hnode
  · have hmem := mem_of_lookup_eq_some hinner
    simp only [cons_append, nil_append, mem_cons, Prod.mk.injEq] at hmem
    obtain ⟨-, rfl⟩ | hmem := hmem
    · obtain ⟨info, hinfo, h⟩ := h.of_obj
      have hinfo := mem_of_lookup_eq_some hinfo
      simp only [mem_cons, Prod.mk.injEq, not_mem_nil, or_false] at hinfo
      obtain ⟨-, rfl⟩ | ⟨-, rfl⟩ | ⟨-, rfl⟩ | ⟨-, rfl⟩ := hinfo
      · cases optionalText_flat h
      · cases h.of_bool
      · cases h.of_bool
      · cases optionalText_flat h
    · cases total with
      | none => cases hmem
      | some total =>
        cases total with
        | none =>
          simp only [mem_singleton, Prod.mk.injEq] at hmem
          obtain ⟨-, rfl⟩ := hmem
          cases h.of_null.1
        | some n =>
          simp only [mem_singleton, Prod.mk.injEq] at hmem
          obtain ⟨-, rfl⟩ := hmem
          cases h.of_num

/-- What stands in a node of a page stands in the page. -/
theorem at_node {next previous : Bool} {total : Option (Option Nat)} {cursor : String} {row : Json}
    (hedge : .obj [("cursor", .str cursor), ("node", row)] ∈ edges.map Prod.snd) (h : At row path value) :
    At (connection edges next previous total) ("edges" :: "node" :: path) value := by
  refine .key ?_ (.item hedge (.key ?_ h))
  · rw [cons_append, lookup_cons, if_pos rfl]
  · rw [lookup_cons, if_neg (by decide), lookup_cons, if_pos rfl]

end Pages

/-! ### Exactness -/

section Exactness

variable {x : Executor} {query : String} {vars : Option Json} {ctx : SecurityContext} {m : QueryMatch}
  {db : Database} {response : Json}

theorem relayRun_eq_ok : ((withDatabase x db).executeRelayQuery m vars (some ctx)).outcome = .ok response ↔
    ∃ plan, x.relayPlan m vars (some ctx) = .ok plan ∧ ∃ result, db.page plan.request = .ok result ∧
      (withDatabase x db).relayResponse m.queryDef plan.request plan.pageSize result = .ok response := by
  simp only [executeRelayQuery, relayPlan_withDatabase, outcome_bind, outcome_lift,
    outcome_call, bind_eq_ok, map_eq_ok]
  constructor
  · rintro ⟨_, ⟨plan, hplan, rfl⟩, result, hresult, h⟩
    exact ⟨plan, hplan, result, hresult, h⟩
  · rintro ⟨plan, hplan, result, hresult, h⟩
    exact ⟨_, ⟨plan, hplan, rfl⟩, result, hresult, h⟩

variable {plan : Executor.RelayPlan}

/-- A page shows nothing the user may not read, if no such field can stand on it. -/
theorem relay_enforced (hrelay : m.queryDef.relay = true) {result : RelayPageResult}
    (hshielded : AllUnreadable x ctx m fun path => ¬OnPage plan path)
    (h : (withDatabase x db).relayResponse m.queryDef plan.request plan.pageSize result = .ok response) :
    Enforced x.schema ctx m response := by
  intro path f hselected hunreadable
  obtain ⟨hmask, hoff⟩ := hshielded path f hselected hunreadable
  refine ⟨hmask, ?_⟩
  intro page value hpage hat
  simp only [relayResponse, bind_eq_ok, pure_eq_ok] at h
  obtain ⟨edges, hedges, rfl⟩ := h
  rw [queryValue_envelope] at hpage
  obtain rfl := Option.some.inj hpage
  have hlong : 3 ≤ path.length := by
    have hdistance := hselected.distance_le
    rwa [rootPosition, if_pos hrelay] at hdistance
  obtain ⟨key, rest, rfl, hcursor, row, hrow, -⟩ := at_page hedges hlong hat
  refine absurd ⟨?_, key, rest, rfl, hcursor⟩ hoff
  apply Nat.pos_of_ne_zero
  intro hzero
  rw [hzero] at hrow
  cases hrow

/-- A page of rows with cursors is answered, and shows the values in its nodes. -/
theorem relay_shows (hplan : x.relayPlan m vars (some ctx) = .ok plan) (rows : List (List (String × Json))) :
    let entries := rows.map fun row => (plan.request.cursorColumn, cursorValue m.queryDef.relayCursorType) :: row
    ∃ response page, ((withDatabase x (.constant entries)).executeRelayQuery m vars (some ctx)).outcome = .ok response ∧
      queryValue m.queryDef response = some page ∧
      ∀ row ∈ (entries.map obj).take plan.pageSize, ∀ path value, At row path value →
        At page ("edges" :: "node" :: path) value := by
  intro entries
  obtain ⟨edges, hedges, hnodes⟩ := @edges_ok (withDatabase x (.constant entries)) m.queryDef
    plan.request.cursorColumn ((entries.map obj).take plan.pageSize) (by
      intro row hrow
      obtain ⟨_, hmem, rfl⟩ := mem_map.mp (mem_of_mem_take hrow)
      obtain ⟨row, -, rfl⟩ := mem_map.mp hmem
      exact rowCursor_cursorValue row)
  obtain ⟨next, previous, total, hresponse⟩ : ∃ next previous total,
      (withDatabase x (.constant entries)).relayResponse m.queryDef plan.request plan.pageSize
        ⟨entries.map .obj, none⟩ =
      .ok (wrapInDataEnvelope (connection edges next previous total) m.queryDef.name) := by
    simp only [relayResponse, hedges, ok_bind]
    exact ⟨_, _, _, rfl⟩
  refine ⟨_, _, relayRun_eq_ok.mpr ⟨plan, hplan, _, rfl, hresponse⟩, queryValue_envelope _ _, ?_⟩
  intro row hrow path value hat
  obtain ⟨cursor, hedge⟩ := hnodes row hrow
  exact at_node hedge hat

/-- What a page may not show is out of the reach of pages. -/
theorem relay_shielded (hplan : x.relayPlan m vars (some ctx) = .ok plan)
    (h : ∀ db response, ((withDatabase x db).executeRelayQuery m vars (some ctx)).outcome = .ok response →
      Enforced x.schema ctx m response) : AllUnreadable x ctx m fun path => ¬OnPage plan path := by
  intro path f hselected hunreadable
  obtain ⟨empty, -, hempty, -⟩ := relay_shows hplan []
  refine ⟨(h _ _ hempty path f hselected hunreadable).1, ?_⟩
  rintro ⟨hsize, key, rest, rfl, hcursor⟩
  obtain ⟨response, page, hrun, hpage, hshown⟩ := relay_shows hplan [[(key, nest rest (.bool true))]]
  have hnull := fun value => (h _ _ hrun _ f hselected hunreadable).2 page value hpage
  have hrow : .obj [(plan.request.cursorColumn, cursorValue m.queryDef.relayCursorType), (key, nest rest (.bool true))] ∈
      ([[(plan.request.cursorColumn, cursorValue m.queryDef.relayCursorType), (key, nest rest (.bool true))]].map
        obj).take plan.pageSize := by
    rw [take_of_length_le (Nat.succ_le_of_lt hsize)]
    exact mem_singleton_self _
  by_cases hkey : plan.request.cursorColumn = key
  · obtain rfl := hcursor hkey.symm
    have hat := hnull _ (hshown _ hrow [key] (cursorValue m.queryDef.relayCursorType)
      (.key (by rw [lookup_cons, if_pos hkey]) (.here _)))
    cases hcolumn : m.queryDef.relayCursorType <;> rw [hcolumn] at hat <;> cases hat
  · have hat := hnull _ (hshown _ hrow (key :: rest) (.bool true)
      (.key (by rw [lookup_cons, if_neg hkey, lookup_cons, if_pos rfl]) (.nested rest _)))
    cases hat

/-- An answer shows nothing the user may not read, if the places of all such fields are covered. -/
theorem direct_enforced {request : ProjectionRequest} {rows : List Json}
    (hrows : db.read request = .ok rows) (hresponse : x.securedResponse m ctx rows = .ok response)
    (hshielded : AllUnreadable x ctx m (Covered x ctx m)) : Enforced x.schema ctx m response := by
  intro path f hselected hunreadable
  obtain ⟨hmask, hcovered⟩ := hshielded path f hselected hunreadable
  refine ⟨hmask, ?_⟩
  intro shown value hshown hat
  obtain ⟨access, haccess, rfl⟩ := securedResponse_eq_ok.mp hresponse
  rw [queryValue_envelope] at hshown
  obtain rfl := Option.some.inj hshown
  cases path with
  | nil => cases hcovered
  | cons key path =>
    obtain ⟨entries, hat⟩ := at_answer (db.read_rows request rows hrows) hat
    exact at_covered haccess hcovered hat

/-- What an answer may not show is covered. -/
theorem direct_shielded (hrelay : m.queryDef.relay = false) (hallowed : ¬Rejected x ctx m)
    (h : ∀ (rows : List (List (String × Json))) response, x.securedResponse m ctx (rows.map .obj) = .ok response →
      Enforced x.schema ctx m response) :
    AllUnreadable x ctx m (Covered x ctx m) := by
  obtain ⟨access, haccess⟩ : ∃ access,
      applyFieldRbacFiltering x.schema m.queryDef.returnType (extractProjectionFields m) ctx = .ok access := by
    apply isOk_iff.mp
    rw [← rejected_iff] at hallowed
    exact Bool.eq_true_of_not_eq_false hallowed
  have hshown : ∀ rows : List (List (String × Json)),
      Enforced x.schema ctx m (wrapInDataEnvelope (answer x m access (rows.map .obj)) m.queryDef.name) :=
    fun rows => h rows _ (securedResponse_eq_ok.mpr ⟨access, haccess, rfl⟩)
  intro path f hselected hunreadable
  refine ⟨(hshown [] path f hselected hunreadable).1, ?_⟩
  by_contra huncovered
  cases path with
  | nil =>
    have hdistance := hselected.distance_le
    rw [rootPosition, hrelay, if_neg Bool.false_ne_true] at hdistance
    cases hdistance
  | cons key path =>
    obtain ⟨value, hat, hvalue⟩ := at_uncovered haccess huncovered
    exact hvalue ((hshown [[(key, nest path (.bool true))]] _ f hselected hunreadable).2 _ value
      (queryValue_envelope _ _) (at_answer_single hat))

/-- Access control is complete for a request exactly when every match that reaches the data is shielded. -/
theorem accessControlled_iff (x : Executor) (query : String) (vars : Option Json) (ctx : SecurityContext) :
    AccessControlled x query vars ctx ↔ ∀ m, Accepted x query vars ctx m → Shielded x vars ctx m := by
  constructor
  · intro h m haccepted
    have hrun : ∀ db response, (if m.queryDef.relay then (withDatabase x db).executeRelayQuery m vars (some ctx)
        else (withDatabase x db).executeCached m ctx).outcome = .ok response → Enforced x.schema ctx m response :=
      fun db response hresponse =>
        h db m response haccepted.matched (run_eq_ok.mpr ⟨m, haccepted, hresponse⟩)
    rw [Shielded]
    cases hrelay : m.queryDef.relay with
    | true =>
      simp only [hrelay, if_true] at hrun ⊢
      intro plan hplan
      exact relay_shielded hplan hrun
    | false =>
      simp only [hrelay, Bool.false_eq_true, if_false, executeCached_eq_ok] at hrun ⊢
      cases hcached : cachedResponse x ctx m with
      | some cached =>
        rw [hcached] at hrun
        exact hrun (.constant []) cached rfl
      | none =>
        rw [hcached] at hrun
        rintro ⟨request, hrequest⟩
        apply or_iff_not_imp_left.mpr
        intro hallowed
        apply direct_shielded hrelay hallowed
        intro rows response hresponse
        exact hrun (.constant rows) response ⟨request, hrequest, _, rfl, hresponse⟩
  · intro h db m response hmatch hresponse
    obtain ⟨matched, haccepted, hresponse⟩ := run_eq_ok.mp hresponse
    obtain rfl := ok.inj (hmatch.symm.trans haccepted.matched)
    have hshielded := h m haccepted
    rw [Shielded] at hshielded
    cases hrelay : m.queryDef.relay with
    | true =>
      rw [hrelay, if_pos rfl] at hshielded hresponse
      obtain ⟨plan, hplan, result, -, hresponse⟩ := relayRun_eq_ok.mp hresponse
      exact relay_enforced hrelay (hshielded plan hplan) hresponse
    | false =>
      rw [hrelay, if_neg Bool.false_ne_true] at hshielded hresponse
      rw [executeCached_eq_ok] at hresponse
      cases hcached : cachedResponse x ctx m with
      | some cached =>
        rw [hcached] at hshielded hresponse
        obtain rfl := hresponse
        exact hshielded
      | none =>
        rw [hcached] at hshielded hresponse
        obtain ⟨request, hrequest, rows, hrows, hresponse⟩ := hresponse
        obtain hrejected | hshielded := hshielded ⟨request, hrequest⟩
        · obtain ⟨access, haccess, -⟩ := securedResponse_eq_ok.mp hresponse
          have hfails := rejected_iff.mpr hrejected
          rw [haccess] at hfails
          cases hfails
        · exact direct_enforced hrows hresponse hshielded

/-! ### A field below the root -/

/-- Employees with a profile, in which the salary needs a scope. -/
def employeesQuery : QueryDefinition where
  name := "employees"
  returnType := "Employee"
  returnsList := true
  arguments := []
  sqlSource := some "v_employee"
  autoParams := ⟨false, false, false, false⟩
  relay := false
  relayCursorColumn := none
  relayCursorType := .int64
  injectParams := []
  requiresRole := none
  nativeColumns := []

def employeesSchema : CompiledSchema where
  types := [⟨"Employee", [⟨"profile", .object "Profile", none, .reject⟩]⟩,
    ⟨"Profile", [⟨"salary", .int, some "read:Profile.salary", .reject⟩]⟩]
  queries := [employeesQuery]
  security := some ⟨[]⟩
  sessionVariables := ⟨[], false⟩

def salariesMatch : QueryMatch :=
  ⟨employeesQuery, [.mk "employees" none [] [.mk "profile" none [] [.mk "salary" none [] []]]], [], QueryMatch.sorted_nil⟩

def employeesExecutor : Executor :=
  { plainExecutor with schema := employeesSchema, matcher := fun _ _ => .ok salariesMatch }

/-- A user without roles reads the salaries. -/
theorem salaries_readable :
    ¬AccessControlled employeesExecutor "query { employees { profile { salary } } }" none tenantUser := by
  intro h
  have hresponse : ((withDatabase employeesExecutor (.constant [[("profile", .obj [("salary", ofNat 90000)])]])
      ).executeRegularQueryWithSecurity "query { employees { profile { salary } } }" none
        tenantUser).outcome = .ok (wrapInDataEnvelope
          (.arr [.obj [("profile", .obj [("salary", ofNat 90000)])]]) "employees") := by
    rfl
  have hselected : Selected employeesSchema (.object "Employee") salariesMatch.rootFields ["profile", "salary"]
      ⟨"salary", .int, some "read:Profile.salary", .reject⟩ :=
    .nested mem_cons_self rfl (.field mem_cons_self rfl)
  have hunreadable : Unreadable employeesSchema tenantUser
      ⟨"salary", .int, some "read:Profile.salary", .reject⟩ := by
    refine ⟨_, rfl, ?_⟩
    intro config hconfig
    obtain rfl := Option.some.inj hconfig
    rfl
  cases (h _ salariesMatch _ rfl hresponse _ _ hselected hunreadable).1

end Exactness

end FraiseQL.FieldAccessControl
