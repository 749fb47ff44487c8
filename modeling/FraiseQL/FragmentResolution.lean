import FraiseQL.GraphqlQuery

/-! Fragment resolution for any table of fragments and any depth limit. The recursion follows spreads through the
table, and what stops it is the depth, which grows with every call and is refused above the limit. An error says that
the selections use an undefined fragment, use a fragment that uses itself, or nest too deep, and nothing else is
refused. -/

namespace FraiseQL.Graphql

open Option List Except

/-! ### The resolver -/

inductive FragmentError where
  | fragmentNotFound (name : String)
  | fragmentDepthExceeded (maxDepth : Nat)
  | circularFragmentReference

/-- The text of a `FragmentError`. -/
def FragmentError.text : FragmentError → String
  | .fragmentNotFound name => "Fragment not found: " ++ name
  | .fragmentDepthExceeded maxDepth => "Fragment depth exceeded (max: " ++ toString maxDepth ++ ")"
  | .circularFragmentReference => "Circular fragment reference detected"

structure FragmentResolver where
  fragments : List FragmentDefinition
  maxDepth : Nat

/-- The fragment that a selection spreads; inline fragments have a name of the same form. -/
def spreadName (sel : ParsedSelection) : Option String :=
  (stripStart ['.', '.', '.'] sel.name).filter fun name => !List.isPrefixOf ['o', 'n', ' '] name.toList

namespace FragmentResolver

variable (r : FragmentResolver)

def new (fragments : List FragmentDefinition) : FragmentResolver := ⟨fragments, 10⟩

/-- One selection of `resolve_selections`; none stands for a run out of fuel. -/
def resolveSelection
    (deeper : List String → List ParsedSelection → Option (Except FragmentError (List ParsedSelection)))
    (visited : List String) (sel : ParsedSelection) : Option (Except FragmentError (List ParsedSelection)) :=
  match spreadName sel with
  | none =>
    if sel.nestedFields.isEmpty then some (.ok [sel])
    else (deeper visited sel.nestedFields).map fun result => result.map fun nested =>
      [.mk sel.name sel.aliasName sel.arguments nested sel.directives]
  | some name =>
    if visited.contains name then some (.error .circularFragmentReference)
    else match findFragment r.fragments name with
      | none => some (.error (.fragmentNotFound name))
      | some fragment => deeper (name :: visited) fragment.selections

/-- The loop over the selections, to the first error. -/
def resolveEach (resolve : ParsedSelection → Option (Except FragmentError (List ParsedSelection))) :
    List ParsedSelection → Option (Except FragmentError (List ParsedSelection))
  | [] => some (.ok [])
  | sel :: sels =>
    (resolve sel).bind fun
      | .error e => some (.error e)
      | .ok resolved => (resolveEach resolve sels).map fun rest => rest.map (resolved ++ ·)

/-- `resolve_selections`, for as many calls in depth as the fuel allows. -/
def resolveSelections : Nat → Nat → List String → List ParsedSelection →
    Option (Except FragmentError (List ParsedSelection))
  | 0, _, _, _ => none
  | fuel + 1, depth, visited, selections =>
    if r.maxDepth < depth then some (.error (.fragmentDepthExceeded r.maxDepth))
    else resolveEach (r.resolveSelection (resolveSelections fuel (depth + 1)) visited) selections

def resolveSpreads (fuel : Nat) (selections : List ParsedSelection) :
    Option (Except FragmentError (List ParsedSelection)) := r.resolveSelections fuel 0 [] selections

end FragmentResolver

/-! ### What selections use -/

section Uses

variable (fragments : List FragmentDefinition)

/-- The selections spread a fragment, at any depth or through other fragments. -/
inductive Uses : List ParsedSelection → String → Prop
  | spread {sels : List ParsedSelection} {sel : ParsedSelection} {name : String} (hsel : sel ∈ sels)
      (hname : spreadName sel = some name) : Uses sels name
  | nested {sels : List ParsedSelection} {sel : ParsedSelection} {name : String} (hsel : sel ∈ sels)
      (hname : spreadName sel = none) (huses : Uses sel.nestedFields name) : Uses sels name
  | through {sels : List ParsedSelection} {sel : ParsedSelection} {name other : String}
      {fragment : FragmentDefinition} (hsel : sel ∈ sels) (hname : spreadName sel = some other)
      (hfragment : findFragment fragments other = some fragment) (huses : Uses fragment.selections name) :
      Uses sels name

/-- A fragment is used that is not defined. -/
def UsesUndefined (sels : List ParsedSelection) : Prop :=
  ∃ name, Uses fragments sels name ∧ findFragment fragments name = none

/-- A fragment is used that uses itself. -/
def UsesCycle (sels : List ParsedSelection) : Prop :=
  ∃ name fragment, Uses fragments sels name ∧ findFragment fragments name = some fragment ∧
    Uses fragments fragment.selections name

/-- There are that many levels of selections below these, inside fields and fragments. -/
inductive Nests : List ParsedSelection → Nat → Prop
  | top (sels : List ParsedSelection) : Nests sels 0
  | nested {sels : List ParsedSelection} {sel : ParsedSelection} {n : Nat} (hsel : sel ∈ sels)
      (hname : spreadName sel = none) (hne : sel.nestedFields ≠ []) (hnests : Nests sel.nestedFields n) :
      Nests sels (n + 1)
  | spread {sels : List ParsedSelection} {sel : ParsedSelection} {name : String} {fragment : FragmentDefinition}
      {n : Nat} (hsel : sel ∈ sels) (hname : spreadName sel = some name)
      (hfragment : findFragment fragments name = some fragment) (hnests : Nests fragment.selections n) :
      Nests sels (n + 1)

variable {fragments}

variable {sels : List ParsedSelection} {n : Nat}

theorem Nests.shallower (h : Nests fragments sels (n + 1)) : Nests fragments sels n := by
  generalize hm : n + 1 = m at h
  induction h generalizing n with
  | top => omega
  | nested hsel hname hne _ ih =>
    cases n with
    | zero => exact .top _
    | succ n => exact .nested hsel hname hne (ih (by omega))
  | spread hsel hname hfragment _ ih =>
    cases n with
    | zero => exact .top _
    | succ n => exact .spread hsel hname hfragment (ih (by omega))

theorem Uses.ne_nil {name : String} (h : Uses fragments sels name) : sels ≠ [] := by
  cases h with
  | spread hsel _ => exact ne_nil_of_mem hsel
  | nested hsel _ _ => exact ne_nil_of_mem hsel
  | through hsel _ _ _ => exact ne_nil_of_mem hsel

/-- Selections nest deeper than a fragment they use. -/
theorem Uses.nests {name : String} {fragment : FragmentDefinition}
    (h : Uses fragments sels name) (hfragment : findFragment fragments name = some fragment)
    (hnests : Nests fragments fragment.selections n) : Nests fragments sels (n + 1) := by
  induction h with
  | spread hsel hname => exact .spread hsel hname hfragment hnests
  | nested hsel hname huses ih => exact (Nests.nested hsel hname huses.ne_nil (ih hfragment)).shallower
  | through hsel hname hother _ ih => exact (Nests.spread hsel hname hother (ih hfragment)).shallower

/-- Selections that use a cycle nest as deep as one likes. -/
theorem UsesCycle.nests (h : UsesCycle fragments sels) (n : Nat) : Nests fragments sels n := by
  obtain ⟨name, fragment, huses, hfragment, hself⟩ := h
  have hinside : ∀ n, Nests fragments fragment.selections n := by
    intro n
    induction n with
    | zero => exact .top _
    | succ n ih => exact hself.nests hfragment ih
  exact (huses.nests hfragment (hinside n)).shallower

end Uses

/-! ### Termination -/

namespace FragmentResolver

variable {r : FragmentResolver}

variable {resolve : ParsedSelection → Option (Except FragmentError (List ParsedSelection))}

theorem resolveEach_isSome (hresolve : ∀ sel, (resolve sel).isSome = true) (sels : List ParsedSelection) :
    (resolveEach resolve sels).isSome = true := by
  induction sels with
  | nil => rfl
  | cons sel sels ih =>
    obtain ⟨result, hresult⟩ := isSome_iff_exists.mp (hresolve sel)
    rw [resolveEach, hresult, bind_some]
    cases result with
    | error e => rfl
    | ok resolved => rw [isSome_map, ih]

theorem resolveSelection_isSome
    {deeper : List String → List ParsedSelection → Option (Except FragmentError (List ParsedSelection))}
    (hdeeper : ∀ visited sels, (deeper visited sels).isSome = true) (visited : List String) (sel : ParsedSelection) :
    (r.resolveSelection deeper visited sel).isSome = true := by
  unfold resolveSelection
  split
  · split_ifs
    · rfl
    · rw [isSome_map, hdeeper]
  · split_ifs
    · rfl
    · split
      · rfl
      · exact hdeeper _ _

variable {fuel depth : Nat}

/-- With fuel for the depth that is left there is a result. -/
theorem resolveSelections_isSome (hpos : 0 < fuel) (hfuel : r.maxDepth + 2 ≤ fuel + depth)
    (visited : List String) (sels : List ParsedSelection) :
    (r.resolveSelections fuel depth visited sels).isSome = true := by
  induction fuel generalizing depth visited sels with
  | zero => omega
  | succ fuel ih =>
    rw [resolveSelections]
    split_ifs with hdeep
    · rfl
    · refine resolveEach_isSome (fun sel => resolveSelection_isSome ?_ visited sel) sels
      intro visited sels
      exact ih (by omega) (by omega) visited sels

/-- More fuel gives the same result. -/
theorem resolveSelections_fuel {fuel' : Nat} (hpos : 0 < fuel) (hfuel : r.maxDepth + 2 ≤ fuel + depth)
    (hle : fuel ≤ fuel') : r.resolveSelections fuel' depth = r.resolveSelections fuel depth := by
  induction fuel generalizing fuel' depth with
  | zero => omega
  | succ fuel ih =>
    obtain ⟨fuel', rfl⟩ : ∃ n, fuel' = n + 1 := ⟨fuel' - 1, by omega⟩
    funext visited sels
    rw [resolveSelections, resolveSelections]
    split_ifs with hdeep
    · rfl
    · rw [ih (by omega) (by omega) (by omega)]

/-! ### Errors -/

variable {sels : List ParsedSelection}

theorem resolveEach_error {e : FragmentError} (h : resolveEach resolve sels = some (.error e)) :
    ∃ sel ∈ sels, resolve sel = some (.error e) := by
  induction sels with
  | nil => cases h
  | cons sel sels ih =>
    rw [resolveEach] at h
    obtain ⟨result, hresult, h⟩ := bind_eq_some_iff.mp h
    cases result with
    | error e' =>
      obtain rfl := error.inj (some.inj h)
      exact ⟨sel, mem_cons_self, hresult⟩
    | ok resolved =>
      obtain ⟨rest, hrest, h⟩ := map_eq_some_iff.mp h
      cases rest with
      | ok rest => cases h
      | error e' =>
        obtain rfl := error.inj h
        obtain ⟨other, hother, hfailed⟩ := ih hrest
        exact ⟨other, mem_cons_of_mem _ hother, hfailed⟩

variable {visited : List String}

/-- What an error says: an undefined fragment, one that is being resolved, a cycle, or more levels than are left. -/
theorem resolveSelections_error
    {e : FragmentError} (h : r.resolveSelections fuel depth visited sels = some (.error e)) :
    UsesUndefined r.fragments sels ∨ (∃ name ∈ visited, Uses r.fragments sels name) ∨ UsesCycle r.fragments sels ∨
      Nests r.fragments sels (r.maxDepth + 1 - depth) := by
  induction fuel generalizing depth visited sels e with
  | zero => cases h
  | succ fuel ih =>
    rw [resolveSelections] at h
    split_ifs at h with hdeep
    · right; right; right
      rw [Nat.sub_eq_zero_of_le hdeep]
      exact .top _
    · have hlevels : r.maxDepth + 1 - depth = (r.maxDepth + 1 - (depth + 1)) + 1 := by omega
      obtain ⟨sel, hsel, hfailed⟩ := resolveEach_error h
      unfold resolveSelection at hfailed
      cases hname : spreadName sel with
      | none =>
        simp only [hname] at hfailed
        split_ifs at hfailed with hempty
        · cases hfailed
        · obtain ⟨result, hresult, hfailed⟩ := map_eq_some_iff.mp hfailed
          cases result with
          | ok nested => cases hfailed
          | error e' =>
            rcases ih hresult with ⟨name, huses, hnone⟩ | ⟨name, hvisited, huses⟩ | ⟨name, f, huses, hcycle⟩ | hnests
            · exact .inl ⟨name, .nested hsel hname huses, hnone⟩
            · exact .inr (.inl ⟨name, hvisited, .nested hsel hname huses⟩)
            · exact .inr (.inr (.inl ⟨name, f, .nested hsel hname huses, hcycle⟩))
            · right; right; right
              rw [hlevels]
              exact .nested hsel hname (fun hnil => hempty (isEmpty_iff.mpr hnil)) hnests
      | some name =>
        simp only [hname] at hfailed
        split_ifs at hfailed with hvisited
        · exact .inr (.inl ⟨name, contains_iff_mem.mp hvisited, .spread hsel hname⟩)
        · cases hfragment : findFragment r.fragments name with
          | none => exact .inl ⟨name, .spread hsel hname, hfragment⟩
          | some fragment =>
            rw [hfragment] at hfailed
            rcases ih hfailed with ⟨other, huses, hnone⟩ | ⟨other, hother, huses⟩ | ⟨other, f, huses, hcycle⟩ | hnests
            · exact .inl ⟨other, .through hsel hname hfragment huses, hnone⟩
            · rcases mem_cons.mp hother with rfl | hother
              · exact .inr (.inr (.inl ⟨other, fragment, .spread hsel hname, hfragment, huses⟩))
              · exact .inr (.inl ⟨other, hother, .through hsel hname hfragment huses⟩)
            · exact .inr (.inr (.inl ⟨other, f, .through hsel hname hfragment huses, hcycle⟩))
            · right; right; right
              rw [hlevels]
              exact .spread hsel hname hfragment hnests

/-! ### Success -/

variable {out : List ParsedSelection}

theorem resolveEach_ok (h : resolveEach resolve sels = some (.ok out)) :
    (∀ sel ∈ sels, ∃ part, resolve sel = some (.ok part)) ∧
      ∀ x ∈ out, ∃ sel ∈ sels, ∃ part, resolve sel = some (.ok part) ∧ x ∈ part := by
  induction sels generalizing out with
  | nil =>
    obtain rfl := ok.inj (some.inj h)
    exact ⟨nofun, nofun⟩
  | cons sel sels ih =>
    rw [resolveEach] at h
    obtain ⟨result, hresult, h⟩ := bind_eq_some_iff.mp h
    cases result with
    | error e => cases some.inj h
    | ok part =>
      obtain ⟨rest, hrest, h⟩ := map_eq_some_iff.mp h
      obtain ⟨rest, rfl, rfl⟩ := Outcome.map_eq_ok.mp h
      obtain ⟨hall, hparts⟩ := ih hrest
      refine ⟨forall_mem_cons.mpr ⟨⟨part, hresult⟩, hall⟩, ?_⟩
      intro x hx
      rcases mem_append.mp hx with hx | hx
      · exact ⟨sel, mem_cons_self, part, hresult, hx⟩
      · obtain ⟨other, hother, part', hpart', hx⟩ := hparts x hx
        exact ⟨other, mem_cons_of_mem _ hother, part', hpart', hx⟩

variable {sel : ParsedSelection}

/-- What was done for a selection that is resolved. -/
theorem resolveSelection_ok
    {deeper : List String → List ParsedSelection → Option (Except FragmentError (List ParsedSelection))}
    {sel : ParsedSelection} {part : List ParsedSelection}
    (h : r.resolveSelection deeper visited sel = some (.ok part)) :
    (spreadName sel = none ∧ sel.nestedFields = [] ∧ part = [sel]) ∨
    (spreadName sel = none ∧ ∃ nested, deeper visited sel.nestedFields = some (.ok nested) ∧
      part = [.mk sel.name sel.aliasName sel.arguments nested sel.directives]) ∨
    ∃ name fragment, spreadName sel = some name ∧ findFragment r.fragments name = some fragment ∧
      deeper (name :: visited) fragment.selections = some (.ok part) := by
  unfold resolveSelection at h
  cases hname : spreadName sel with
  | none =>
    simp only [hname] at h
    split_ifs at h with hempty
    · exact .inl ⟨rfl, isEmpty_iff.mp hempty, (ok.inj (some.inj h)).symm⟩
    · obtain ⟨result, hresult, h⟩ := map_eq_some_iff.mp h
      obtain ⟨nested, rfl, rfl⟩ := Outcome.map_eq_ok.mp h
      exact .inr (.inl ⟨rfl, nested, hresult, rfl⟩)
  | some name =>
    simp only [hname] at h
    split_ifs at h with hvisited
    · cases some.inj h
    · cases hfragment : findFragment r.fragments name with
      | none =>
        rw [hfragment] at h
        cases some.inj h
      | some fragment =>
        rw [hfragment] at h
        exact .inr (.inr ⟨name, fragment, rfl, hfragment, h⟩)

theorem resolveSelections_ok (h : r.resolveSelections fuel depth visited sels = some (.ok out)) :
    ∃ n, fuel = n + 1 ∧ depth ≤ r.maxDepth ∧
      resolveEach (r.resolveSelection (r.resolveSelections n (depth + 1)) visited) sels = some (.ok out) := by
  cases fuel with
  | zero => cases h
  | succ fuel =>
    rw [resolveSelections] at h
    split_ifs at h with hdeep
    · cases some.inj h
    · exact ⟨fuel, rfl, Nat.le_of_not_lt hdeep, h⟩

/-- The selections under a field are resolved with it. -/
theorem resolved_nested (h : r.resolveSelections fuel depth visited sels = some (.ok out)) (hsel : sel ∈ sels)
    (hname : spreadName sel = none) (hne : sel.nestedFields ≠ []) :
    ∃ n nested, r.resolveSelections n (depth + 1) visited sel.nestedFields = some (.ok nested) := by
  obtain ⟨n, -, -, hresolved⟩ := resolveSelections_ok h
  obtain ⟨part, hpart⟩ := (resolveEach_ok hresolved).1 sel hsel
  rcases resolveSelection_ok hpart with ⟨-, hnil, -⟩ | ⟨-, nested, hnested, -⟩ | ⟨name, -, hspread, -⟩
  · exact absurd hnil hne
  · exact ⟨n, nested, hnested⟩
  · rw [hname] at hspread
    cases hspread

theorem resolved_spread (h : r.resolveSelections fuel depth visited sels = some (.ok out)) (hsel : sel ∈ sels)
    {name : String} (hname : spreadName sel = some name) :
    ∃ fragment n visited' part, findFragment r.fragments name = some fragment ∧
      r.resolveSelections n (depth + 1) visited' fragment.selections = some (.ok part) := by
  obtain ⟨n, -, -, hresolved⟩ := resolveSelections_ok h
  obtain ⟨part, hpart⟩ := (resolveEach_ok hresolved).1 sel hsel
  rcases resolveSelection_ok hpart with ⟨hnone, -⟩ | ⟨hnone, -⟩ | ⟨other, fragment, hspread, hfragment, hdeeper⟩
  · rw [hname] at hnone
    cases hnone
  · rw [hname] at hnone
    cases hnone
  · obtain rfl := some.inj (hname.symm.trans hspread)
    exact ⟨fragment, n, _, part, hfragment, hdeeper⟩

theorem resolved_defined {name : String} (huses : Uses r.fragments sels name) {visited : List String}
    (h : r.resolveSelections fuel depth visited sels = some (.ok out)) : findFragment r.fragments name ≠ none := by
  induction huses generalizing fuel depth visited out with
  | spread hsel hname =>
    obtain ⟨fragment, -, -, -, hfragment, -⟩ := resolved_spread h hsel hname
    rw [hfragment]
    exact some_ne_none _
  | nested hsel hname huses ih =>
    obtain ⟨n, nested, hnested⟩ := resolved_nested h hsel hname huses.ne_nil
    exact ih hnested
  | through hsel hname hfragment _ ih =>
    obtain ⟨fragment, n, visited', part, hfound, hpart⟩ := resolved_spread h hsel hname
    obtain rfl := some.inj (hfragment.symm.trans hfound)
    exact ih hpart

theorem resolved_shallow {levels : Nat} (hnests : Nests r.fragments sels levels) {visited : List String}
    (h : r.resolveSelections fuel depth visited sels = some (.ok out)) : depth + levels ≤ r.maxDepth := by
  induction hnests generalizing fuel depth visited out with
  | top =>
    obtain ⟨-, -, hdepth, -⟩ := resolveSelections_ok h
    exact hdepth
  | nested hsel hname hne _ ih =>
    obtain ⟨n, nested, hnested⟩ := resolved_nested h hsel hname hne
    have hdepth := ih hnested
    omega
  | spread hsel hname hfragment _ ih =>
    obtain ⟨fragment, n, visited', part, hfound, hpart⟩ := resolved_spread h hsel hname
    obtain rfl := some.inj (hfragment.symm.trans hfound)
    have hdepth := ih hpart
    omega

theorem not_uses_of_kept
    (hkept : ∀ x ∈ out, spreadName x = none ∧ ∀ name, ¬Uses [] x.nestedFields name) (name : String) :
    ¬Uses [] out name := by
  rintro (⟨hsel, hname⟩ | ⟨hsel, hname, huses⟩ | ⟨hsel, hname, hfragment, -⟩)
  · rw [(hkept _ hsel).1] at hname
    cases hname
  · exact (hkept _ hsel).2 name huses
  · cases hfragment

/-- No spread is left in what is resolved. -/
theorem resolved_kept (h : r.resolveSelections fuel depth visited sels = some (.ok out)) :
    ∀ x ∈ out, spreadName x = none ∧ ∀ name, ¬Uses [] x.nestedFields name := by
  induction fuel generalizing depth visited sels out with
  | zero => cases h
  | succ fuel ih =>
    obtain ⟨n, hn, -, hresolved⟩ := resolveSelections_ok h
    obtain rfl := Nat.succ.inj hn
    intro x hx
    obtain ⟨sel, -, part, hpart, hx⟩ := (resolveEach_ok hresolved).2 x hx
    rcases resolveSelection_ok hpart with ⟨hnone, hnil, rfl⟩ | ⟨hnone, nested, hnested, rfl⟩ | ⟨_, _, -, -, hdeeper⟩
    · obtain rfl := mem_singleton.mp hx
      rw [hnil]
      exact ⟨hnone, fun _ huses => huses.ne_nil rfl⟩
    · obtain rfl := mem_singleton.mp hx
      exact ⟨hnone, not_uses_of_kept (ih hnested)⟩
    · exact ih hdeeper x hx

/-- Resolution ends for every table of fragments. Its result is an error exactly when the selections use an undefined
fragment or a cycle or nest deeper than the limit, and selections without a spread otherwise. -/
theorem resolveSpreads_ends (r : FragmentResolver) (sels : List ParsedSelection) :
    ∃ result, (∀ fuel, r.maxDepth + 2 ≤ fuel → r.resolveSpreads fuel sels = some result) ∧
      ((∃ e, result = .error e) ↔ UsesUndefined r.fragments sels ∨ UsesCycle r.fragments sels ∨
        Nests r.fragments sels (r.maxDepth + 1)) ∧
      ∀ out, result = .ok out → ∀ name, ¬Uses [] out name := by
  have hsome : (r.resolveSelections (r.maxDepth + 2) 0 [] sels).isSome = true :=
    resolveSelections_isSome (by omega) (by omega) [] sels
  obtain ⟨result, hresult⟩ := isSome_iff_exists.mp hsome
  refine ⟨result, ?_, ?_, ?_⟩
  · intro fuel hfuel
    rw [resolveSpreads, resolveSelections_fuel (by omega) (by omega) hfuel]
    exact hresult
  · constructor
    · rintro ⟨e, rfl⟩
      rcases resolveSelections_error hresult with hundefined | ⟨name, hname, -⟩ | hcycle | hnests
      · exact .inl hundefined
      · cases hname
      · exact .inr (.inl hcycle)
      · exact .inr (.inr hnests)
    · intro hbad
      cases result with
      | error e => exact ⟨e, rfl⟩
      | ok out =>
        have hshallow : ¬Nests r.fragments sels (r.maxDepth + 1) := by
          intro hnests
          have hdepth := resolved_shallow hnests hresult
          omega
        rcases hbad with ⟨name, huses, hnone⟩ | hcycle | hnests
        · exact absurd hnone (resolved_defined huses hresult)
        · exact absurd (hcycle.nests _) hshallow
        · exact absurd hnests hshallow
  · rintro out rfl
    exact not_uses_of_kept (resolved_kept hresult)

/-! ### The resolver of queries -/

section Pipeline

variable {fragments : List FragmentDefinition}
  {deeper : List String → List ParsedSelection → Option (Except FragmentError (List ParsedSelection))}
  {deeper' : List String → List ParsedSelection → Except String (List ParsedSelection)}
  (hdeeper : ∀ {visited sels result}, deeper visited sels = some result →
    deeper' visited sels = result.mapError FragmentError.text)
include hdeeper

variable {result : Except FragmentError (List ParsedSelection)}

theorem resolveSelection_text {visited : List String} {sel : ParsedSelection}
    (h : (new fragments).resolveSelection deeper visited sel = some result) :
    Graphql.resolveSelection fragments deeper' visited sel = result.mapError FragmentError.text := by
  unfold resolveSelection spreadName at h
  unfold Graphql.resolveSelection
  have hwhole : ∀ {result}, (if sel.nestedFields.isEmpty then some (.ok [sel])
      else (deeper visited sel.nestedFields).map fun result => result.map fun nested =>
        [.mk sel.name sel.aliasName sel.arguments nested sel.directives]) = some result →
      (if sel.nestedFields.isEmpty then .ok [sel]
      else (deeper' visited sel.nestedFields).map fun nested =>
        [.mk sel.name sel.aliasName sel.arguments nested sel.directives]) = result.mapError FragmentError.text := by
    intro result h
    split_ifs at h ⊢ with hempty
    · rw [← some.inj h]
      rfl
    · obtain ⟨inner, hinner, rfl⟩ := map_eq_some_iff.mp h
      rw [hdeeper hinner]
      cases inner <;> rfl
  cases hstrip : stripStart ['.', '.', '.'] sel.name with
  | none =>
    rw [hstrip] at h
    exact hwhole h
  | some name =>
    rw [hstrip] at h
    cases hinline : ['o', 'n', ' '].isPrefixOf name.toList with
    | true =>
      simp only [filter_some, hinline, Bool.not_true, Bool.false_eq_true, if_false] at h
      simp only [hinline, if_true]
      exact hwhole h
    | false =>
      simp only [filter_some, hinline, Bool.not_false, if_true] at h
      simp only [hinline, Bool.false_eq_true, if_false]
      split_ifs at h ⊢ with hvisited
      · rw [← some.inj h]
        rfl
      · have hfragments : (new fragments).fragments = fragments := rfl
        rw [hfragments] at h
        cases hfragment : findFragment fragments name with
        | none =>
          rw [hfragment] at h
          rw [← some.inj h]
          rfl
        | some fragment =>
          rw [hfragment] at h
          exact hdeeper h

theorem resolveEach_text {visited : List String} {sels : List ParsedSelection}
    (h : resolveEach ((new fragments).resolveSelection deeper visited) sels = some result) :
    (sels.mapM (Graphql.resolveSelection fragments deeper' visited)).map flatten =
      result.mapError FragmentError.text := by
  induction sels generalizing result with
  | nil =>
    rw [← some.inj h]
    rfl
  | cons sel sels ih =>
    rw [resolveEach] at h
    obtain ⟨first, hfirst, h⟩ := bind_eq_some_iff.mp h
    rw [mapM_cons, resolveSelection_text hdeeper hfirst]
    cases first with
    | error e =>
      rw [← some.inj h]
      rfl
    | ok part =>
      obtain ⟨rest, hrest, rfl⟩ := map_eq_some_iff.mp h
      have hrest := ih hrest
      cases hparts : sels.mapM (Graphql.resolveSelection fragments deeper' visited) with
      | error e =>
        rw [hparts] at hrest
        cases rest with
        | ok _ => cases hrest
        | error e' =>
          obtain rfl := error.inj hrest
          rfl
      | ok parts =>
        rw [hparts] at hrest
        cases rest with
        | error _ => cases hrest
        | ok rest =>
          obtain rfl := ok.inj hrest
          rfl

end Pipeline

/-- The resolver of the query pipeline is this one with its default limit, and gives errors as their texts. -/
theorem resolveSpreads_text {fragments : List FragmentDefinition}
    {result : Except FragmentError (List ParsedSelection)} (h : (new fragments).resolveSpreads fuel sels = some result) :
    Graphql.resolveSpreads fragments sels = result.mapError FragmentError.text := by
  have hmax : (new fragments).maxDepth = maxFragmentDepth := rfl
  have hlevels : ∀ {depth visited sels result}, (new fragments).resolveSelections fuel depth visited sels =
      some result → Graphql.resolveSelections fragments (maxFragmentDepth + 1 - depth) visited sels =
        result.mapError FragmentError.text := by
    clear h
    induction fuel with
    | zero => exact nofun
    | succ fuel ih =>
      intro depth visited sels result h
      rw [resolveSelections, hmax] at h
      split_ifs at h with hdeep
      · rw [Nat.sub_eq_zero_of_le (by omega), ← some.inj h]
        rfl
      · have hsub : maxFragmentDepth + 1 - depth = (maxFragmentDepth + 1 - (depth + 1)) + 1 := by omega
        rw [hsub, Graphql.resolveSelections]
        exact resolveEach_text ih h
  exact hlevels h

/-- `match_query` names the fragments of a query in its error exactly when it uses an undefined fragment or a cycle or
nests deeper than the limit; otherwise the selections it goes on with are free of spreads. -/
theorem matchParsed_fragments (lib : Library) (schema : CompiledSchema) (parsed : ParsedQuery) (vars : Option Json) :
    ((∃ text, matchParsed lib schema parsed vars = .error (.validation text (some "fragments"))) ↔
      UsesUndefined parsed.fragments parsed.selections ∨ UsesCycle parsed.fragments parsed.selections ∨
        Nests parsed.fragments parsed.selections (maxFragmentDepth + 1)) ∧
      ∀ out, Graphql.resolveSpreads parsed.fragments parsed.selections = .ok out → ∀ name, ¬Uses [] out name := by
  have hsome : ((new parsed.fragments).resolveSelections 12 0 [] parsed.selections).isSome = true :=
    resolveSelections_isSome (by omega) (Nat.le_refl 12) [] parsed.selections
  obtain ⟨result, hresult⟩ := isSome_iff_exists.mp hsome
  have htext := resolveSpreads_text hresult
  cases result with
  | error e =>
    have hrefused : matchParsed lib schema parsed vars = .error (.validation e.text (some "fragments")) := by
      rw [matchParsed, finalSelections, htext]
      rfl
    refine ⟨iff_of_true ⟨_, hrefused⟩ ?_, fun out hout => by cases htext.symm.trans hout⟩
    rcases resolveSelections_error hresult with hundefined | ⟨_, hvisited, -⟩ | hcycle | hnests
    · exact .inl hundefined
    · cases hvisited
    · exact .inr (.inl hcycle)
    · exact .inr (.inr hnests)
  | ok out =>
    have hshallow : ¬Nests parsed.fragments parsed.selections (maxFragmentDepth + 1) := by
      intro hnests
      have hdepth : maxFragmentDepth + 1 ≤ maxFragmentDepth := resolved_shallow hnests hresult
      omega
    refine ⟨iff_of_false ?_ ?_, ?_⟩
    · rintro ⟨text, hmatch⟩
      rw [matchParsed, finalSelections, htext] at hmatch
      cases hkept : filterSelections lib.fromStr (variablesMap vars) out with
      | error e => simp [Except.mapError, bind, Except.bind, hkept] at hmatch
      | ok kept =>
        cases hquery : lib.findQuery schema.queries parsed.rootField <;>
          simp [Except.mapError, bind, Except.bind, pure, Except.pure, hkept, hquery, okOr] at hmatch
    · rintro (⟨name, huses, hnone⟩ | hcycle | hnests)
      · exact resolved_defined huses hresult hnone
      · exact hshallow (hcycle.nests _)
      · exact hshallow hnests
    · intro out' hout'
      obtain rfl := ok.inj (htext.symm.trans hout')
      exact not_uses_of_kept (resolved_kept hresult)

end FragmentResolver

end FraiseQL.Graphql
