import FraiseQL.WhereFilter

/-! Filters as formulas over the conditions on a row: what a filter of the JSON language says when every key of it
is understood. The parser of WHERE clauses gives each filter that reads as a formula the value of the formula. -/

namespace FraiseQL

open WhereFilter Option

inductive Connective where
  | and
  | or
  | not
  deriving DecidableEq

namespace Connective

def key : Connective → String
  | .and => "_and"
  | .or => "_or"
  | .not => "_not"

def ofKey? (key : String) : Option Connective :=
  if key = "_and" then some .and else if key = "_or" then some .or else if key = "_not" then some .not else none

theorem ofKey?_eq_some {key : String} {c : Connective} : ofKey? key = some c ↔ key = c.key := by
  constructor
  · intro h
    unfold ofKey? at h
    split_ifs at h with hand hor hnot
    · rw [← some.inj h, hand, Connective.key]
    · rw [← some.inj h, hor, Connective.key]
    · rw [← some.inj h, hnot, Connective.key]
  · rintro rfl
    cases c <;> rfl

theorem ofKey?_eq_none {key : String} : ofKey? key = none ↔ key ≠ "_and" ∧ key ≠ "_or" ∧ key ≠ "_not" := by
  unfold ofKey?
  split_ifs with hand hor hnot
  · simp [hand]
  · simp [hor]
  · simp [hnot]
  · simp [hand, hor, hnot]

end Connective

/-- A formula; under a negation several formulas are a conjunction. -/
inductive RowFilter where
  | condition (field op : String) (value : Json)
  | group (c : Connective) (filters : List RowFilter)

namespace RowFilter

section Holds

-- Whether a row meets a condition.
variable (row : String → String → Json → Bool)

mutual

def holdsOn : RowFilter → Bool
  | .condition field op value => row field op value
  | .group .and filters => allHold filters
  | .group .or filters => anyHolds filters
  | .group .not filters => !allHold filters

def allHold : List RowFilter → Bool
  | [] => true
  | f :: fs => holdsOn f && allHold fs

def anyHolds : List RowFilter → Bool
  | [] => false
  | f :: fs => holdsOn f || anyHolds fs

end

theorem allHold_eq_all (fs : List RowFilter) : allHold row fs = fs.all (holdsOn row) := by
  induction fs with
  | nil => rfl
  | cons f fs ih => rw [allHold, List.all_cons, ih]

theorem anyHolds_eq_any (fs : List RowFilter) : anyHolds row fs = fs.any (holdsOn row) := by
  induction fs with
  | nil => rfl
  | cons f fs ih => rw [anyHolds, List.any_cons, ih]

theorem allHold_append (fs gs : List RowFilter) : allHold row (fs ++ gs) = (allHold row fs && allHold row gs) := by
  simp only [allHold_eq_all, List.all_append]

/-- A conjunction depends only on which filters it has. -/
theorem allHold_congr {fs gs : List RowFilter} (h : ∀ f, f ∈ fs ↔ f ∈ gs) : allHold row fs = allHold row gs := by
  rw [allHold_eq_all, allHold_eq_all, Bool.eq_iff_iff, List.all_eq_true, List.all_eq_true]
  exact forall_congr' fun f => imp_congr_left (h f)

end Holds

mutual

/-- The fields a filter names. -/
def fields : RowFilter → List String
  | .condition field _ _ => [field]
  | .group _ filters => allFields filters

def allFields : List RowFilter → List String
  | [] => []
  | f :: fs => fields f ++ allFields fs

def negationFree : RowFilter → Bool
  | .condition _ _ _ => true
  | .group c filters => c ≠ .not && allNegationFree filters

def allNegationFree : List RowFilter → Bool
  | [] => true
  | f :: fs => negationFree f && allNegationFree fs

end

variable {fs : List RowFilter}

theorem mem_allFields {name : String} : name ∈ allFields fs ↔ ∃ f ∈ fs, name ∈ f.fields := by
  induction fs with
  | nil => simp [allFields]
  | cons f fs ih => simp [allFields, ih]

/-- The filters at once; one alone is itself. -/
def conj : List RowFilter → RowFilter
  | [f] => f
  | fs => .group .and fs

theorem holdsOn_conj (row : String → String → Json → Bool) (fs : List RowFilter) :
    (conj fs).holdsOn row = allHold row fs := by
  match fs with
  | [] => rfl
  | [f] => rw [conj, allHold, allHold, Bool.and_true]
  | _ :: _ :: _ => rfl

/-! ### Filters of the JSON language -/

def isOperator (op : String) : Bool := (WhereOperator.fromStr op).isOk

/-- The operators under a field. -/
def readOps (field : String) : List (String × Json) → Option (List RowFilter)
  | [] => some []
  | (op, value) :: ops =>
    if isOperator op then (readOps field ops).map fun fs => .condition field op value :: fs else none

mutual

/-- An object is the conjunction of its entries; none where something in it is not understood. -/
def readJson : Json → Option RowFilter
  | .obj entries => (readEntries entries).map conj
  | _ => none

def readItems : List Json → Option (List RowFilter)
  | [] => some []
  | v :: vs => do
    let f ← readJson v
    let fs ← readItems vs
    return f :: fs

def readEntries : List (String × Json) → Option (List RowFilter)
  | [] => some []
  | (key, val) :: rest => do
    let here ← readEntry key val
    let there ← readEntries rest
    return here ++ there

def readEntry (key : String) (val : Json) : Option (List RowFilter) :=
  match Connective.ofKey? key with
  | some .not =>
    match val with
    | .obj entries => (readEntries entries).map fun fs => [.group .not [conj fs]]
    | _ => none
  | some c =>
    match val with
    | .arr items => (readItems items).map fun fs => [.group c fs]
    | _ => none
  | none =>
    match val with
    | .obj ops => readOps key ops
    | _ => none

end

theorem readEntry_scalar (key : String) {val : Json} (h : readEntry key val = some fs)
    (harr : ∀ items, val ≠ .arr items) (hobj : ∀ entries, val ≠ .obj entries) : False := by
  cases val with
  | arr items => exact harr items rfl
  | obj entries => exact hobj entries rfl
  | _ =>
    simp only [readEntry] at h
    split at h <;> cases h

mutual

/-- The names of fields in a filter, at any depth of combinators. -/
def fieldNames : Json → List String
  | .obj entries => entryNames entries
  | .arr items => itemNames items
  | _ => []

def itemNames : List Json → List String
  | [] => []
  | v :: vs => fieldNames v ++ itemNames vs

def entryNames : List (String × Json) → List String
  | [] => []
  | (key, val) :: rest =>
    (if (Connective.ofKey? key).isSome then fieldNames val else [key]) ++ entryNames rest

end

theorem readOps_eq_some_iff {field : String} {ops : List (String × Json)} : readOps field ops = some fs ↔
      (∀ e ∈ ops, isOperator e.1 = true) ∧ fs = ops.map fun e => .condition field e.1 e.2 := by
  induction ops generalizing fs with
  | nil =>
    rw [readOps, List.map_nil]
    exact ⟨fun h => ⟨nofun, (some.inj h).symm⟩, fun h => congrArg some h.2.symm⟩
  | cons e ops ih =>
    obtain ⟨op, value⟩ := e
    rw [readOps, List.map_cons, List.forall_mem_cons]
    by_cases hop : isOperator op = true
    · rw [if_pos hop, map_eq_some_iff]
      constructor
      · rintro ⟨gs, hgs, rfl⟩
        obtain ⟨hops, rfl⟩ := ih.mp hgs
        exact ⟨⟨hop, hops⟩, rfl⟩
      · rintro ⟨⟨-, hops⟩, rfl⟩
        exact ⟨_, ih.mpr ⟨hops, rfl⟩, rfl⟩
    · rw [if_neg hop]
      exact ⟨nofun, fun h => absurd h.1.1 hop⟩

/-- Entries are read one by one. -/
theorem readEntries_eq {entries : List (String × Json)}
    (h : ∀ key val, (key, val) ∈ entries → ∃ fs, readEntry key val = some fs) :
    ∃ fs, readEntries entries = some fs := by
  induction entries with
  | nil => exact ⟨[], rfl⟩
  | cons e entries ih =>
    obtain ⟨key, val⟩ := e
    obtain ⟨fs, hfs⟩ := h key val List.mem_cons_self
    obtain ⟨gs, hgs⟩ := ih fun key val hmem => h key val (List.mem_cons_of_mem _ hmem)
    refine ⟨fs ++ gs, ?_⟩
    rw [readEntries, hfs, hgs]
    rfl

theorem mem_readEntries {entries : List (String × Json)} (h : readEntries entries = some fs) :
    (∀ key val, (key, val) ∈ entries → ∃ gs, readEntry key val = some gs) ∧
      ∀ f, f ∈ fs ↔ ∃ key val gs, (key, val) ∈ entries ∧ readEntry key val = some gs ∧ f ∈ gs := by
  induction entries generalizing fs with
  | nil =>
    cases h
    exact ⟨nofun, fun f => ⟨nofun, fun ⟨_, _, _, hmem, _⟩ => nomatch hmem⟩⟩
  | cons e entries ih =>
    obtain ⟨key, val⟩ := e
    simp only [readEntries, bind_eq_bind, bind_eq_some_iff, pure_def, some.injEq] at h
    obtain ⟨here, hhere, there, hthere, rfl⟩ := h
    obtain ⟨hread, hmem⟩ := ih hthere
    constructor
    · intro k v hkv
      rcases List.mem_cons.mp hkv with heq | hkv
      · obtain ⟨rfl, rfl⟩ := Prod.mk.inj heq
        exact ⟨here, hhere⟩
      · exact hread k v hkv
    · intro f
      rw [List.mem_append, hmem f]
      constructor
      · rintro (hf | ⟨k, v, gs, hkv, hgs, hf⟩)
        · exact ⟨key, val, here, List.mem_cons_self, hhere, hf⟩
        · exact ⟨k, v, gs, List.mem_cons_of_mem _ hkv, hgs, hf⟩
      · rintro ⟨k, v, gs, hkv, hgs, hf⟩
        rcases List.mem_cons.mp hkv with heq | hkv
        · obtain ⟨rfl, rfl⟩ := Prod.mk.inj heq
          rw [hhere] at hgs
          rw [some.inj hgs]
          exact .inl hf
        · exact .inr ⟨k, v, gs, hkv, hgs, hf⟩

/-- A field holds an object of operators. -/
theorem readEntry_field {key : String} (hkey : Connective.ofKey? key = none) {val : Json} :
    readEntry key val = some fs ↔ ∃ ops, val = .obj ops ∧ readOps key ops = some fs := by
  cases val with
  | obj ops => simp [readEntry, hkey]
  | _ => simp [readEntry, hkey]

/-! ### The parser of WHERE clauses agrees -/

section Parse

variable (cc : CharCase) (holds : WhereOperator → Option Json → Json → Bool) (doc : Json)

/-- A condition as a WHERE clause states it of a document. -/
def onDoc (field op : String) (value : Json) : Bool :=
  match WhereOperator.fromStr op with
  | .ok operator => holds operator (valueAt doc [toSnakeCase cc field]) value
  | .error _ => false

theorem parseOps_of_read {field : String} {ops : List (String × Json)} {fs : List RowFilter}
    (h : readOps field ops = some fs) :
    ∃ cs, parseOps cc [toSnakeCase cc field] ops = .ok cs ∧
      evalAll holds doc cs = allHold (onDoc cc holds doc) fs := by
  induction ops generalizing fs with
  | nil =>
    cases h
    exact ⟨[], rfl, rfl⟩
  | cons e ops ih =>
    obtain ⟨op, value⟩ := e
    rw [readOps] at h
    split_ifs at h with hop
    obtain ⟨gs, hgs, rfl⟩ := map_eq_some_iff.mp h
    obtain ⟨cs, hcs, heval⟩ := ih hgs
    obtain ⟨operator, hoperator⟩ := Outcome.isOk_iff.mp hop
    refine ⟨[.field [toSnakeCase cc field] operator value] ++ cs, ?_, ?_⟩
    · rw [parseOps, hoperator, hcs]
      rfl
    · rw [evalAll_append, heval, evalAll_singleton, allHold, holdsOn, onDoc, hoperator, eval]

-- Structural recursion over the filter, one theorem for each function of the parser.
mutual

theorem parse_of_readJson :
    ∀ (v : Json) (f : RowFilter), readJson v = some f →
      ∃ c, WhereFilter.parseWhereObject cc [] v = .ok c ∧ eval holds doc c = f.holdsOn (onDoc cc holds doc)
  | .obj entries, f, h => by
    rw [readJson] at h
    obtain ⟨fs, hfs, rfl⟩ := map_eq_some_iff.mp h
    obtain ⟨cs, hcs, heval⟩ := parse_of_readEntries entries fs hfs
    refine ⟨collapse cs, ?_, ?_⟩
    · rw [WhereFilter.parseWhereObject, hcs, Except.map]
    · rw [eval_collapse, heval, holdsOn_conj]
  | .null, _, h => nomatch h
  | .bool _, _, h => nomatch h
  | .num _, _, h => nomatch h
  | .str _, _, h => nomatch h
  | .arr _, _, h => nomatch h

theorem parse_of_readItems :
    ∀ (vs : List Json) (fs : List RowFilter), readItems vs = some fs →
      ∃ cs, WhereFilter.parseItems cc [] vs = .ok cs ∧
        cs.map (eval holds doc) = fs.map (holdsOn (onDoc cc holds doc))
  | [], fs, h => by
    cases h
    exact ⟨[], rfl, rfl⟩
  | v :: vs, fs, h => by
    simp only [readItems, bind_eq_bind, bind_eq_some_iff, pure_def, some.injEq] at h
    obtain ⟨f, hf, fs, hfs, rfl⟩ := h
    obtain ⟨c, hc, heval⟩ := parse_of_readJson v f hf
    obtain ⟨cs, hcs, hevals⟩ := parse_of_readItems vs fs hfs
    refine ⟨c :: cs, ?_, ?_⟩
    · rw [WhereFilter.parseItems, hc, hcs]
      rfl
    · rw [List.map_cons, List.map_cons, heval, hevals]

theorem parse_of_readEntries :
    ∀ (es : List (String × Json)) (fs : List RowFilter), readEntries es = some fs →
      ∃ cs, parseEntries cc [] es = .ok cs ∧ evalAll holds doc cs = allHold (onDoc cc holds doc) fs
  | [], fs, h => by
    cases h
    exact ⟨[], rfl, rfl⟩
  | (key, val) :: es, fs, h => by
    simp only [readEntries, bind_eq_bind, bind_eq_some_iff, pure_def, some.injEq] at h
    obtain ⟨fs, hfs, gs, hgs, rfl⟩ := h
    obtain ⟨cs, hcs, heval⟩ := parse_of_readEntry key val fs hfs
    obtain ⟨cs', hcs', heval'⟩ := parse_of_readEntries es gs hgs
    refine ⟨cs ++ cs', ?_, ?_⟩
    · rw [parseEntries, hcs, hcs']
      rfl
    · rw [evalAll_append, heval, heval', allHold_append]

theorem parse_of_readEntry (key : String) :
    ∀ (val : Json) (fs : List RowFilter), readEntry key val = some fs →
      ∃ cs, parseEntry cc [] key val = .ok cs ∧ evalAll holds doc cs = allHold (onDoc cc holds doc) fs
  | .arr items, fs, h => by
    cases hkey : Connective.ofKey? key with
    | none =>
      simp only [readEntry, hkey] at h
      cases h
    | some c =>
      simp only [readEntry, hkey] at h
      cases c with
      | not => cases h
      | and =>
        obtain ⟨gs, hgs, rfl⟩ := map_eq_some_iff.mp h
        obtain ⟨cs, hcs, hevals⟩ := parse_of_readItems items gs hgs
        refine ⟨[.and cs], ?_, ?_⟩
        · rw [Connective.ofKey?_eq_some.mp hkey, Connective.key, parseEntry, if_pos rfl, hcs, Except.map]
        · rw [evalAll_singleton, eval, evalAll_eq_all, hevals, allHold, allHold, Bool.and_true, holdsOn,
            allHold_eq_all, List.all_map]
          rfl
      | or =>
        obtain ⟨gs, hgs, rfl⟩ := map_eq_some_iff.mp h
        obtain ⟨cs, hcs, hevals⟩ := parse_of_readItems items gs hgs
        refine ⟨[.or cs], ?_, ?_⟩
        · rw [Connective.ofKey?_eq_some.mp hkey, Connective.key, parseEntry, if_neg (by decide), if_pos rfl, hcs, Except.map]
        · rw [evalAll_singleton, eval, evalAny_eq_any, hevals, allHold, allHold, Bool.and_true, holdsOn,
            anyHolds_eq_any, List.any_map]
          rfl
  | .obj entries, fs, h => by
    cases hkey : Connective.ofKey? key with
    | none =>
      simp only [readEntry, hkey] at h
      obtain ⟨hand, hor, hnot⟩ := Connective.ofKey?_eq_none.mp hkey
      obtain ⟨cs, hcs, heval⟩ := parseOps_of_read cc holds doc h
      refine ⟨cs, ?_, heval⟩
      rw [parseEntry, if_neg hand, if_neg hor, if_neg hnot]
      exact hcs
    | some c =>
      simp only [readEntry, hkey] at h
      cases c with
      | and => cases h
      | or => cases h
      | not =>
        obtain ⟨gs, hgs, rfl⟩ := map_eq_some_iff.mp h
        obtain ⟨cs, hcs, heval⟩ := parse_of_readEntries entries gs hgs
        refine ⟨[.not (collapse cs)], ?_, ?_⟩
        · rw [Connective.ofKey?_eq_some.mp hkey, Connective.key, parseEntry, if_neg (by decide), if_neg (by decide), if_pos rfl, hcs, Except.map]
        · rw [evalAll_singleton, eval, eval_collapse, heval, allHold, allHold, Bool.and_true, holdsOn, allHold,
            allHold, Bool.and_true, holdsOn_conj]
  | .null, _, h | .bool _, _, h | .num _, _, h | .str _, _, h => nomatch (readEntry_scalar key h nofun nofun)

end

end Parse

end RowFilter

end FraiseQL
