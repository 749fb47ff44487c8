import FraiseQL.RestDerivation

/-! When REST routing is unambiguous. Two patterns match one path exactly when they agree segment by segment, up to
parameters; conflicts are refused by the text of patterns. -/

namespace FraiseQL.Rest

open List

/-! ### Patterns -/

/-- A segment that matches anything. -/
def isParam (segment : List Char) : Bool := (paramName? segment).isSome

/-- Two patterns of as many segments, which agree where neither has a parameter. -/
def Overlaps (a b : String) : Prop :=
  List.Forall₂ (fun s t => isParam s = true ∨ isParam t = true ∨ s = t) (pathSegments a) (pathSegments b)

/-- A route is one that a request could be resolved to. -/
def Matches (route : RestRoute) (method : HttpMethod) (path : String) : Prop :=
  route.method = method ∧ (matchRoutePath route.path (pathSegments path)).isSome = true

theorem matchSegments_isSome {patterns actuals : List (List Char)} :
    (matchSegments patterns actuals).isSome = true ↔
      List.Forall₂ (fun pattern actual => isParam pattern = true ∨ pattern = actual) patterns actuals := by
  induction patterns generalizing actuals with
  | nil =>
    cases actuals with
    | nil => exact ⟨fun _ => .nil, fun _ => rfl⟩
    | cons a actuals => exact ⟨nofun, nofun⟩
  | cons pattern patterns ih =>
    cases actuals with
    | nil => exact ⟨nofun, nofun⟩
    | cons actual actuals =>
      rw [forall₂_cons, ← ih, matchSegments, isParam]
      cases paramName? pattern with
      | some name => simp
      | none =>
        by_cases heq : pattern = actual
        · simp [heq]
        · simp [heq]

/-- Segments are not empty, and have no slash in them. -/
theorem pathSegments_mem {path : String} {segment : List Char} (h : segment ∈ pathSegments path) :
    segment ≠ [] ∧ '/' ∉ segment := by
  obtain ⟨hmem, hne⟩ := mem_filter.mp h
  exact ⟨of_decide_eq_true hne, (RustText.mem_splitOn hmem).1⟩

/-- Such segments are those of a path. -/
theorem exists_path {segments : List (List Char)} (h : ∀ s ∈ segments, s ≠ [] ∧ '/' ∉ s) :
    ∃ path, pathSegments path = segments := by
  refine ⟨String.ofList (['/'].intercalate segments), ?_⟩
  rw [pathSegments, String.toList_ofList]
  cases segments with
  | nil => decide
  | cons s segments =>
    rw [splitOn_intercalate '/' (fun t ht => (h t ht).2) (cons_ne_nil s segments), filter_eq_self]
    exact fun t ht => decide_eq_true (h t ht).1

/-- Two patterns are matched by one path if and only if they overlap. -/
theorem overlaps_iff_path {a b : String} :
    Overlaps a b ↔ ∃ path, (matchRoutePath a (pathSegments path)).isSome = true ∧
      (matchRoutePath b (pathSegments path)).isSome = true := by
  simp only [Overlaps, matchRoutePath, matchSegments_isSome]
  constructor
  · intro h
    -- Where one pattern has a parameter the other's segment will do, and where both have one anything will.
    obtain ⟨actuals, hactuals, ha, hb⟩ : ∃ actuals : List (List Char), (∀ s ∈ actuals, s ≠ [] ∧ '/' ∉ s) ∧
        List.Forall₂ (fun pattern actual => isParam pattern = true ∨ pattern = actual) (pathSegments a) actuals ∧
        List.Forall₂ (fun pattern actual => isParam pattern = true ∨ pattern = actual) (pathSegments b) actuals := by
      have hplain : (∀ s ∈ pathSegments a, s ≠ [] ∧ '/' ∉ s) ∧ ∀ s ∈ pathSegments b, s ≠ [] ∧ '/' ∉ s :=
        ⟨fun s hs => pathSegments_mem hs, fun s hs => pathSegments_mem hs⟩
      generalize pathSegments a = as at h hplain ⊢
      generalize pathSegments b = bs at h hplain ⊢
      induction h with
      | nil => exact ⟨[], nofun, .nil, .nil⟩
      | @cons s t as bs hst _ ih =>
        obtain ⟨hs, has⟩ := forall_mem_cons.mp hplain.1
        obtain ⟨ht, hbs⟩ := forall_mem_cons.mp hplain.2
        obtain ⟨actuals, hactuals, ha, hb⟩ := ih ⟨has, hbs⟩
        by_cases hparam : isParam s = true
        · exact ⟨t :: actuals, forall_mem_cons.mpr ⟨ht, hactuals⟩, .cons (.inl hparam) ha, .cons (.inr rfl) hb⟩
        · refine ⟨s :: actuals, forall_mem_cons.mpr ⟨hs, hactuals⟩, .cons (.inr rfl) ha, .cons ?_ hb⟩
          exact (hst.resolve_left hparam).imp_right Eq.symm
    obtain ⟨path, rfl⟩ := exists_path hactuals
    exact ⟨path, ha, hb⟩
  · rintro ⟨path, ha, hb⟩
    generalize pathSegments path = actuals at ha hb
    generalize pathSegments a = as at ha ⊢
    generalize pathSegments b = bs at hb ⊢
    induction ha generalizing bs with
    | nil =>
      cases hb
      exact .nil
    | cons hs _ ih =>
      cases hb with
      | cons ht hb =>
        refine .cons ?_ (ih _ hb)
        rcases hs with hs | rfl
        · exact .inl hs
        · exact .inr (ht.imp_right Eq.symm)

/-! ### Tables -/

/-- A route with what its resource says of itself. -/
abbrev PlacedRoute := (String × String × Option String) × RestRoute

/-- The routes of a table, in the order they are tried in. -/
def placedRoutes (table : RestRouteTable) : List PlacedRoute :=
  table.flatMap fun resource => resource.routes.map fun route =>
    ((resource.name, resource.typeName, resource.idArg), route)

/-- What a request is resolved to, without the other routes of the resource. -/
def resolvedRoute (table : RestRouteTable) (path : String) (method : HttpMethod) :
    Option (PlacedRoute × List (String × String)) :=
  (resolve table path method).map fun found =>
    (((found.resource.name, found.resource.typeName, found.resource.idArg), found.route), found.pathParams)

/-- At most one route of the table matches a request, so that a request is resolved to the same route by any table of
the same routes, and no two resources have one name. -/
structure Unambiguous (table : RestRouteTable) : Prop where
  alone : ∀ method path, (placedRoutes table).Pairwise fun a b => ¬ (Matches a.2 method path ∧ Matches b.2 method path)
  settled : ∀ other, (placedRoutes other).Perm (placedRoutes table) →
    ∀ path method, resolvedRoute other path method = resolvedRoute table path method
  names : (table.map RestResource.name).Nodup

/-- What a route resolves a request to. -/
def placedMatch (path : String) (method : HttpMethod) (p : PlacedRoute) :
    Option (PlacedRoute × List (String × String)) :=
  if p.2.method = method then (matchRoutePath p.2.path (pathSegments path)).map fun params => (p, params) else none

theorem resolvedRoute_eq (table : RestRouteTable) (path : String) (method : HttpMethod) :
    resolvedRoute table path method = (placedRoutes table).findSome? (placedMatch path method) := by
  induction table with
  | nil => rfl
  | cons resource table ih =>
    have hroutes : ∀ routes : List RestRoute,
        (routes.findSome? fun route =>
          if route.method = method then
            (matchRoutePath route.path (pathSegments path)).map fun params =>
              (⟨resource, route, params⟩ : ResolvedRoute)
          else none).map (fun found =>
            (((found.resource.name, found.resource.typeName, found.resource.idArg), found.route), found.pathParams)) =
          (routes.map fun route => ((resource.name, resource.typeName, resource.idArg), route)).findSome?
            (placedMatch path method) := by
      intro routes
      induction routes with
      | nil => rfl
      | cons route routes ihroutes =>
        rw [findSome?_cons, map_cons, findSome?_cons, ← ihroutes, placedMatch]
        by_cases hmethod : route.method = method
        · rw [if_pos hmethod, if_pos hmethod]
          cases matchRoutePath route.path (pathSegments path) <;> rfl
        · rw [if_neg hmethod, if_neg hmethod]
    rw [placedRoutes, flatMap_cons, findSome?_append, ← hroutes, ← placedRoutes, ← ih, resolvedRoute, resolve,
      findSome?_cons]
    split
    · rename_i hfound
      rw [hfound]
      rfl
    · rename_i hnone
      rw [hnone]
      rfl

theorem placedMatch_isSome {path : String} {method : HttpMethod} {p : PlacedRoute} :
    (placedMatch path method p).isSome = true ↔ Matches p.2 method path := by
  rw [placedMatch, Matches]
  by_cases hmethod : p.2.method = method
  · rw [if_pos hmethod, Option.isSome_map]
    exact ⟨fun h => ⟨hmethod, h⟩, And.right⟩
  · rw [if_neg hmethod]
    exact ⟨nofun, fun h => absurd h.1 hmethod⟩

/-- Where at most one element has an image, the first image found does not depend on the order. -/
theorem findSome?_eq_of_perm {α β : Type} {f : α → Option β} {as bs : List α} (hperm : as.Perm bs)
    (halone : bs.Pairwise fun a b => ¬ ((f a).isSome = true ∧ (f b).isSome = true)) :
    as.findSome? f = bs.findSome? f := by
  have hshort : (bs.filterMap f).length ≤ 1 := by
    clear hperm
    induction bs with
    | nil => exact Nat.zero_le 1
    | cons b bs ih =>
      obtain ⟨hb, hbs⟩ := pairwise_cons.mp halone
      cases hfound : f b with
      | none =>
        rw [filterMap_cons_none hfound]
        exact ih hbs
      | some image =>
        have hnone : bs.filterMap f = [] := by
          rw [filterMap_eq_nil_iff]
          intro c hc
          by_contra hsome
          exact hb c hc ⟨by rw [hfound]; rfl, Option.isSome_iff_ne_none.mpr hsome⟩
        rw [filterMap_cons_some hfound, hnone]
        exact Nat.le_refl 1
  have himages := hperm.filterMap f
  rw [← head?_filterMap, ← head?_filterMap]
  cases hbs : bs.filterMap f with
  | nil =>
    rw [hbs, perm_nil] at himages
    rw [himages]
  | cons image more =>
    rw [hbs, length_cons] at hshort
    have hmore : more = [] := eq_nil_of_length_eq_zero (by omega)
    rw [hbs, hmore, perm_singleton] at himages
    rw [himages, hmore]

/-! ### Schemas -/

section Schemas

variable (isUppercase : Char → Bool) (schema : RouteSchema)

/-- The routes that a type's operations ask for. -/
def routesOf (t : RestType) : List RestRoute :=
  deriveRoutes isUppercase t (schema.queriesOf t) (schema.mutationsOf t) schema.config

/-- The name that a type's resource is given. -/
def nameOf (t : RestType) : String := deriveResourceName isUppercase t.name (schema.queriesOf t)

/-- No two operations ask for one method and one text. -/
def Accepted : Prop :=
  (schema.exposedTypes.flatMap (routesOf isUppercase schema)).Pairwise fun a b => (a.method, a.path) ≠ (b.method, b.path)

/-- No two routes that are asked for with one method overlap, and no two types with routes are named alike. -/
structure Apart : Prop where
  routes : (schema.exposedTypes.flatMap (routesOf isUppercase schema)).Pairwise fun a b =>
    a.method = b.method → ¬ Overlaps a.path b.path
  names : ((schema.exposedTypes.filter fun t => !(routesOf isUppercase schema t).isEmpty).map
    (nameOf isUppercase schema)).Nodup

/-- The resources that are derived, before conflicts are looked for. -/
def derivedResources : List RestResource :=
  schema.exposedTypes.filterMap fun t =>
    deriveResource isUppercase t (schema.queriesOf t) (schema.mutationsOf t) schema.config

theorem deriveResource_eq (t : RestType) :
    deriveResource isUppercase t (schema.queriesOf t) (schema.mutationsOf t) schema.config =
      if (routesOf isUppercase schema t).isEmpty then none
      else some ⟨nameOf isUppercase schema t, t.name, detectIdArg t (schema.mutationsOf t) (schema.queriesOf t),
        routesOf isUppercase schema t⟩ := rfl

theorem derivedResources_routes :
    (derivedResources isUppercase schema).flatMap RestResource.routes =
      schema.exposedTypes.flatMap (routesOf isUppercase schema) := by
  rw [derivedResources]
  induction schema.exposedTypes with
  | nil => rfl
  | cons t types ih =>
    rw [filterMap_cons, deriveResource_eq, flatMap_cons, ← ih]
    by_cases hempty : (routesOf isUppercase schema t).isEmpty = true
    · rw [if_pos hempty, isEmpty_iff.mp hempty]
      rfl
    · rw [if_neg hempty]
      rfl

theorem derivedResources_names :
    (derivedResources isUppercase schema).map RestResource.name =
      (schema.exposedTypes.filter fun t => !(routesOf isUppercase schema t).isEmpty).map (nameOf isUppercase schema) := by
  rw [derivedResources]
  induction schema.exposedTypes with
  | nil => rfl
  | cons t types ih =>
    rw [filterMap_cons, deriveResource_eq, filter_cons]
    cases (routesOf isUppercase schema t).isEmpty with
    | true => exact ih
    | false => exact congrArg (nameOf isUppercase schema t :: ·) ih

theorem detectConflictsFrom_ok {seen : List ((HttpMethod × String) × String)} {routes : List RestRoute} :
    detectConflictsFrom seen routes = .ok () ↔
      (∀ route ∈ routes, ∀ entry ∈ seen, entry.1 ≠ (route.method, route.path)) ∧
        routes.Pairwise fun a b => (a.method, a.path) ≠ (b.method, b.path) := by
  induction routes generalizing seen with
  | nil => exact ⟨fun _ => ⟨nofun, .nil⟩, fun _ => rfl⟩
  | cons route routes ih =>
    rw [detectConflictsFrom, forall_mem_cons, pairwise_cons]
    cases hseen : seen.lookup (route.method, route.path) with
    | some previous =>
      refine ⟨nofun, fun h => ?_⟩
      have hnone : seen.lookup (route.method, route.path) = none :=
        lookup_eq_none_iff.mpr fun entry hentry => bne_iff_ne.mpr (h.1.1 entry hentry).symm
      rw [hseen] at hnone
      cases hnone
    | none =>
      have hfresh : ∀ entry ∈ seen, entry.1 ≠ (route.method, route.path) := fun entry hentry =>
        (bne_iff_ne.mp (lookup_eq_none_iff.mp hseen entry hentry)).symm
      simp only [ih, forall_mem_cons]
      constructor
      · exact fun h => ⟨⟨hfresh, fun r hr => (h.1 r hr).2⟩, fun r hr => (h.1 r hr).1, h.2⟩
      · exact fun h => ⟨fun r hr => ⟨h.2.1 r hr, h.1.2 r hr⟩, h.2.2⟩

/-- A table is derived exactly where no two operations ask for one method and one text. -/
theorem fromCompiledSchema_eq_ok {table : RestRouteTable} :
    fromCompiledSchema isUppercase schema = .ok table ↔
      table = derivedResources isUppercase schema ∧ Accepted isUppercase schema := by
  have hconflicts : detectConflicts (derivedResources isUppercase schema) = .ok () ↔ Accepted isUppercase schema := by
    rw [detectConflicts, derivedResources_routes, detectConflictsFrom_ok]
    exact ⟨And.right, fun h => ⟨nofun, h⟩⟩
  have hunfold : fromCompiledSchema isUppercase schema =
      detectConflicts (derivedResources isUppercase schema) >>= fun _ =>
        pure (derivedResources isUppercase schema) := rfl
  rw [hunfold, Outcome.bind_eq_ok, ← hconflicts]
  constructor
  · rintro ⟨_, hunit, htable⟩
    cases htable
    exact ⟨rfl, hunit⟩
  · rintro ⟨rfl, hok⟩
    exact ⟨(), hok, rfl⟩

theorem placedRoutes_routes (table : RestRouteTable) :
    (placedRoutes table).map Prod.snd = table.flatMap RestResource.routes := by
  rw [placedRoutes, map_flatMap]
  simp only [map_map, Function.comp_def, map_id']

/-- Whatever is asked of two routes of a table in turn is asked of the routes themselves. -/
theorem pairwise_placedRoutes {table : RestRouteTable} {r : RestRoute → RestRoute → Prop} :
    (placedRoutes table).Pairwise (fun a b => r a.2 b.2) ↔ (table.flatMap RestResource.routes).Pairwise r := by
  rw [← placedRoutes_routes, pairwise_map]

end Schemas

/-- Routes of a table are unambiguous where they do not overlap and its resources are named apart. -/
theorem unambiguous_iff {table : RestRouteTable} :
    Unambiguous table ↔
      ((table.flatMap RestResource.routes).Pairwise fun a b => a.method = b.method → ¬ Overlaps a.path b.path) ∧
        (table.map RestResource.name).Nodup := by
  have halone : (∀ method path, (placedRoutes table).Pairwise fun a b =>
      ¬ (Matches a.2 method path ∧ Matches b.2 method path)) ↔
      (table.flatMap RestResource.routes).Pairwise fun a b => a.method = b.method → ¬ Overlaps a.path b.path := by
    constructor
    · intro h
      refine pairwise_iff_forall_sublist.mpr fun {a b} hsub hmethod hoverlap => ?_
      obtain ⟨path, ha, hb⟩ := overlaps_iff_path.mp hoverlap
      have hroutes := (pairwise_placedRoutes (r := fun b c => ¬ (Matches b a.method path ∧ Matches c a.method path))).mp
        (h a.method path)
      have hpair := pairwise_iff_forall_sublist.mp hroutes hsub
      exact hpair ⟨⟨rfl, ha⟩, hmethod.symm, hb⟩
    · intro h method path
      refine (pairwise_placedRoutes (r := fun b c => ¬ (Matches b method path ∧ Matches c method path))).mpr (h.imp ?_)
      rintro a b hapart ⟨⟨ha, hpatha⟩, hb, hpathb⟩
      exact hapart (ha.trans hb.symm) (overlaps_iff_path.mpr ⟨path, hpatha, hpathb⟩)
  constructor
  · exact fun h => ⟨halone.mp h.alone, h.names⟩
  · rintro ⟨hroutes, hnames⟩
    refine ⟨halone.mpr hroutes, fun other hperm path method => ?_, hnames⟩
    rw [resolvedRoute_eq, resolvedRoute_eq]
    refine findSome?_eq_of_perm hperm ((halone.mpr hroutes method path).imp ?_)
    rintro a b hnot ⟨ha, hb⟩
    exact hnot ⟨placedMatch_isSome.mp ha, placedMatch_isSome.mp hb⟩

/-- The routing derived from a schema is unambiguous if and only if, unless two operations ask for the very same route
and no table is derived at all, no two patterns of one method overlap and no two types with routes are named alike. -/
theorem derived_unambiguous_iff (isUppercase : Char → Bool) (schema : RouteSchema) :
    (∀ table, fromCompiledSchema isUppercase schema = .ok table → Unambiguous table) ↔
      (Accepted isUppercase schema → Apart isUppercase schema) := by
  have happart : Unambiguous (derivedResources isUppercase schema) ↔ Apart isUppercase schema := by
    rw [unambiguous_iff, derivedResources_routes, derivedResources_names]
    exact ⟨fun h => ⟨h.1, h.2⟩, fun h => ⟨h.routes, h.names⟩⟩
  constructor
  · exact fun h haccepted =>
      happart.mp (h _ ((fromCompiledSchema_eq_ok isUppercase schema).mpr ⟨rfl, haccepted⟩))
  · intro h table htable
    obtain ⟨rfl, haccepted⟩ := (fromCompiledSchema_eq_ok isUppercase schema).mp htable
    exact happart.mpr (h haccepted)

/-- Two types that one view is read for, with keys of different names. -/
def sharedView : RouteSchema where
  types := [⟨"Person", [⟨"pk_person", none, .int⟩]⟩, ⟨"User", [⟨"id", none, .uuid⟩]⟩]
  queries := [
    ⟨"user", "User", false, [⟨"id", .id, false, none⟩], some "v_user", none, none⟩,
    ⟨"person", "Person", false, [⟨"pk_person", .int, false, none⟩], some "v_user", none, none⟩]
  mutations := []
  restConfig := none

/-- One request is matched by a route of either type, and both resources are called `users`. -/
theorem sharedView_ambiguous :
    ¬ ∀ table, fromCompiledSchema Char.isUpper sharedView = .ok table → Unambiguous table := by
  intro h
  have htable : fromCompiledSchema Char.isUpper sharedView = .ok [
      ⟨"users", "Person", some "pk_person", [⟨.get, "/users/{pk_person}", .query "person", 200⟩]⟩,
      ⟨"users", "User", some "id", [⟨.get, "/users/{id}", .query "user", 200⟩]⟩] := by
    decide +kernel
  have hunambiguous := h _ htable
  have halone := (pairwise_cons.mp (hunambiguous.alone .get "/users/7")).1 _ mem_cons_self
  exact halone ⟨⟨rfl, by decide⟩, rfl, by decide⟩

end FraiseQL.Rest
