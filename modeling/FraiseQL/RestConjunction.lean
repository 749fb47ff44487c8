import FraiseQL.RestGetPage
import FraiseQL.RestMergedFilters

/-! The where clause of a REST request against the filters that its parameters supply (`rest/params.rs`). The clause is
their conjunction when no two parameters give different values for one field and operator, a filter is given once, and
no group is negated. Otherwise a parameter that was accepted can be lost. -/

namespace FraiseQL.Rest

open MapEntries RowFilter WhereFilter Outcome Connective List Except Prod

/-- Whether a where clause holds on a document; none where it cannot be read. -/
def clauseHolds (cc : CharCase) (holds : WhereOperator → Option Json → Json → Bool) (doc : Json) :
    Option Json → Option Bool
  | none => some true
  | some clause => (fromGraphqlJson cc clause).toOption.map (eval holds doc)

/-- A where clause is the conjunction of filters, and names fields of the type only. -/
structure Conjoins (t : RestType) (filters : List RowFilter) (clause : Option Json) : Prop where
  names : ∀ json ∈ clause, ∀ name ∈ fieldNames json, (t.findFieldByOutputName name).isSome
  holds : ∀ (cc : CharCase) (holds : WhereOperator → Option Json → Json → Bool) (doc : Json),
    clauseHolds cc holds doc clause = some (filters.all (holdsOn (onDoc cc holds doc)))

/-! ### The parameters by kind -/

section Kinds

variable (lib : ParamLibrary) (t : RestType)

/-- The field and the value of a plain parameter. -/
def plainOf (pair : String × String) : Option (String × Json) :=
  if '.' ∈ pair.1.toList ∨ (parseBracketKey pair.1).isSome ∨ pair.1 ∈ reservedParams then none
  else (coerceFieldValue lib (some t) pair.1 pair.2).toOption.map fun value => (pair.1, value)

def bracketOf (pair : String × String) : Option (String × String × String) :=
  if '.' ∈ pair.1.toList then none else (parseBracketKey pair.1).map fun key => (key.1, key.2, pair.2)

def groupOf (pair : String × String) : Option (String × String) :=
  if (connective? pair.1).isSome then some pair else none

variable {lib t} {d : QueryDefinition}

variable {key : String}

theorem dot_of_bracket {field op : String} (h : parseBracketKey key = some (field, op)) (hdot : '.' ∈ field.toList) :
    '.' ∈ key.toList := by
  rw [parseBracketKey] at h
  split at h
  · split_ifs at h
    obtain ⟨rfl, -⟩ := mk.inj (Option.some.inj h)
    rw [String.toList_ofList] at hdot
    exact mem_of_mem_take hdot
  · cases h

theorem reserved_plain : ∀ key ∈ reservedParams, '.' ∉ key.toList ∧ parseBracketKey key = none := by
  decide

theorem connective_reserved (h : (connective? key).isSome) : key ∈ reservedParams := by
  rcases connective?_isSome.mp h with rfl | rfl | rfl <;> decide

variable {pair : String × String}

/-- What one pair adds to the parameters. -/
theorem classifyParam_kinds {params params' : ClassifiedParams}
    (h : classifyParam lib d (some t) params pair = .ok params') :
    params'.simple = params.simple ++ (plainOf lib t pair).toList ∧
      params'.bracket = params.bracket ++ (bracketOf pair).toList ∧
      params'.logical = params.logical ++ (groupOf pair).toList ∧
      params'.filter = if pair.1 = "filter" then some pair.2 else params.filter := by
  obtain ⟨key, raw⟩ := pair
  have hother : key ∉ reservedParams → groupOf (key, raw) = none ∧ key ≠ "filter" := by
    intro hkey
    refine ⟨if_neg fun hc => hkey (connective_reserved hc), ?_⟩
    rintro rfl
    exact hkey (by decide)
  simp only [classifyParam] at h
  by_cases hdot : '.' ∈ key.toList ∧ key ∉ reservedParams
  · rw [if_pos hdot] at h
    obtain ⟨hgroup, hfilter⟩ := hother hdot.2
    rw [← ok.inj h, plainOf, if_pos (.inl hdot.1), bracketOf, if_pos hdot.1, hgroup, if_neg hfilter]
    simp
  · rw [if_neg hdot] at h
    cases hbracket : parseBracketKey key with
    | some fieldOp =>
      obtain ⟨field, op⟩ := fieldOp
      have hkey : key ∉ reservedParams := by
        intro hkey
        rw [(reserved_plain key hkey).2] at hbracket
        cases hbracket
      have hnodot : '.' ∉ key.toList := fun hmem => hdot ⟨hmem, hkey⟩
      obtain ⟨hgroup, hfilter⟩ := hother hkey
      rw [hbracket] at h
      dsimp only at h
      rw [if_neg fun hmem => hnodot (dot_of_bracket hbracket hmem)] at h
      simp only [bind_eq_ok, pure_eq_ok] at h
      obtain ⟨-, -, -, -, rfl⟩ := h
      rw [plainOf, if_pos (.inr (.inl (by rw [hbracket]; rfl))), bracketOf, if_neg hnodot, hbracket, hgroup,
        if_neg hfilter]
      simp
    | none =>
      rw [hbracket] at h
      dsimp only at h
      have hreserved : key ∈ reservedParams → plainOf lib t (key, raw) = none ∧ bracketOf (key, raw) = none := by
        intro hkey
        rw [plainOf, if_pos (.inr (.inr hkey)), bracketOf, if_neg (reserved_plain key hkey).1, hbracket]
        exact ⟨rfl, rfl⟩
      split at h
      all_goals first
        | obtain ⟨hplain, hbrackets⟩ := hreserved (by decide)
          rw [← ok.inj h, hplain, hbrackets]
          simp [groupOf, connective?]
        | skip
      rename_i hselect hsort hlimit hoffset hfirst hafter hlast hbefore hfilter hsearch hor hand hnot
      have hkey : key ∉ reservedParams := by
        simp only [reservedParams, mem_cons, not_mem_nil, or_false, not_or]
        exact ⟨hselect, hsort, hlimit, hoffset, hfirst, hafter, hlast, hbefore, hfilter, hsearch, hor, hand, hnot⟩
      have hnodot : '.' ∉ key.toList := fun hmem => hdot ⟨hmem, hkey⟩
      obtain ⟨hgroup, -⟩ := hother hkey
      split_ifs at h with hlist hvalid
      · cases h
      · simp only [bind_eq_ok, pure_eq_ok] at h
        obtain ⟨value, hvalue, rfl⟩ := h
        rw [plainOf, if_neg (by simp [hnodot, hbracket, hkey]), hvalue, bracketOf, if_neg hnodot, hbracket, hgroup,
          if_neg hfilter]
        simp [Except.toOption]
      · cases h

/-- The parameters of a whole query string by kind. -/
theorem classified_kinds {pairs : List (String × String)} {start params : ClassifiedParams}
    (h : pairs.foldlM (classifyParam lib d (some t)) start = .ok params) :
    params.simple = start.simple ++ pairs.filterMap (plainOf lib t) ∧
      params.bracket = start.bracket ++ pairs.filterMap bracketOf ∧
      params.logical = start.logical ++ pairs.filterMap groupOf ∧
      params.filter = (lastValue "filter" pairs).or start.filter := by
  induction pairs generalizing start with
  | nil =>
    obtain rfl := ok.inj h
    simp [lastValue]
  | cons pair pairs ih =>
    rw [foldlM_cons] at h
    obtain ⟨next, hnext, h⟩ := bind_eq_ok.mp h
    obtain ⟨hsimple, hbracket, hlogical, hfilter⟩ := ih h
    obtain ⟨hsimple', hbracket', hlogical', hfilter'⟩ := classifyParam_kinds hnext
    have hone : ∀ {α : Type} (f : String × String → Option α),
        (pair :: pairs).filterMap f = (f pair).toList ++ pairs.filterMap f := by
      intro α f
      rw [filterMap_cons]
      cases f pair <;> rfl
    rw [hsimple, hbracket, hlogical, hfilter, hsimple', hbracket', hlogical', hfilter', hone, hone, hone,
      lastValue_cons, append_assoc, append_assoc, append_assoc, Option.or_assoc]
    refine ⟨rfl, rfl, rfl, ?_⟩
    split_ifs <;> rfl

theorem readParam_plain {c : String × Json} (h : plainOf lib t pair = some c) :
    readParam lib t pair = some [.condition c.1 "eq" c.2] := by
  obtain ⟨key, raw⟩ := pair
  rw [plainOf] at h
  split_ifs at h with hother
  obtain ⟨hdot, hbracket, hkey⟩ : '.' ∉ key.toList ∧ parseBracketKey key = none ∧ key ∉ reservedParams := by
    simpa using hother
  obtain ⟨value, hvalue, rfl⟩ := Option.map_eq_some_iff.mp h
  have hfilter : key ≠ "filter" := by
    rintro rfl
    exact hkey (by decide)
  have hconnective : connective? key = none := by
    rw [Option.eq_none_iff_forall_not_mem]
    exact fun c hc => hkey (connective_reserved (Option.isSome_iff_exists.mpr ⟨c, hc⟩))
  simp only [readParam]
  rw [hbracket]
  simp only [if_neg hdot, if_neg hfilter, hconnective, if_neg hkey]
  rw [readTyped, if_pos (by decide), hvalue]
  rfl

theorem readParam_bracket {b : String × String × String} (h : bracketOf pair = some b) :
    readParam lib t pair = readTyped lib t b.1 b.2.1 b.2.2 := by
  obtain ⟨key, raw⟩ := pair
  rw [bracketOf] at h
  split_ifs at h with hdot
  obtain ⟨⟨field, op⟩, hbracket, rfl⟩ := Option.map_eq_some_iff.mp h
  simp only [readParam]
  rw [hbracket]
  exact if_neg hdot

theorem readParam_filter (raw : String) :
    readParam lib t ("filter", raw) = (filterEntries lib raw).bind readEntries := by
  simp only [readParam]
  rw [(reserved_plain "filter" (by decide)).2]
  simp only [if_neg (reserved_plain "filter" (by decide)).1]
  rfl

theorem readParam_group {raw : String} {c : Connective} (h : connective? key = some c) :
    readParam lib t (key, raw) = (readGroup lib raw.length raw.toList).map fun filters => [.group c filters] := by
  have hkey := connective_reserved (Option.isSome_iff_exists.mpr ⟨c, h⟩)
  have hfilter : key ≠ "filter" := by
    rintro rfl
    cases h
  simp only [readParam]
  rw [(reserved_plain key hkey).2]
  simp only [if_neg (reserved_plain key hkey).1, if_neg hfilter, h]

/-- A filter in JSON is of no other kind. -/
theorem filter_kinds (raw : String) :
    plainOf lib t ("filter", raw) = none ∧ bracketOf ("filter", raw) = none ∧ groupOf ("filter", raw) = none := by
  have hkey : "filter" ∈ reservedParams := by decide
  refine ⟨if_pos (.inr (.inr hkey)), ?_, rfl⟩
  rw [bracketOf, if_neg (reserved_plain "filter" hkey).1, (reserved_plain "filter" hkey).2]
  rfl

/-- A parameter of no kind stands for nothing. -/
theorem readParam_other {fs : List RowFilter} (hplain : plainOf lib t pair = none)
    (hbracket : bracketOf pair = none) (hfilter : pair.1 ≠ "filter") (hgroup : groupOf pair = none)
    (h : readParam lib t pair = some fs) : fs = [] := by
  obtain ⟨key, raw⟩ := pair
  have hconnective : connective? key = none := by
    rw [groupOf] at hgroup
    split_ifs at hgroup with hc
    simpa using hc
  simp only [readParam] at h
  by_cases hdot : '.' ∈ key.toList
  · split at h
    · rw [if_pos hdot] at h
      split_ifs at h
      exact (Option.some.inj h).symm
    · rw [if_pos hdot] at h
      split_ifs at h
      exact (Option.some.inj h).symm
  · rw [bracketOf, if_neg hdot, Option.map_eq_none_iff] at hbracket
    dsimp only at hbracket
    rw [hbracket] at h
    simp only [if_neg hdot, if_neg hfilter, hconnective] at h
    split_ifs at h with hkey
    · exact (Option.some.inj h).symm
    · rw [plainOf, if_neg (by simp [hdot, hbracket, hkey]), Option.map_eq_none_iff] at hplain
      dsimp only at hplain
      rw [readTyped, hplain] at h
      split_ifs at h
      cases h

/-- What a parameter named after a connective stands for. -/
def GroupReads (lib : ParamLibrary) (group : String × String) (f : RowFilter) : Prop :=
  ∃ c fs, connective? group.1 = some c ∧ readGroup lib group.2.length group.2.toList = some fs ∧ f = .group c fs

theorem GroupReads.unique {group : String × String} {f f' : RowFilter} (h : GroupReads lib group f)
    (h' : GroupReads lib group f') : f = f' := by
  obtain ⟨c, fs, hc, hfs, rfl⟩ := h
  obtain ⟨c', fs', hc', hfs', rfl⟩ := h'
  rw [hc] at hc'
  rw [hfs] at hfs'
  rw [Option.some.inj hc', Option.some.inj hfs']

/-- The condition a parameter stands for on its own. -/
def ConditionOf (lib : ParamLibrary) (t : RestType) (pair : String × String) (c : String × String × Json) : Prop :=
  (∃ p, plainOf lib t pair = some p ∧ c = (p.1, "eq", p.2)) ∨ ∃ b, bracketOf pair = some b ∧
    ∃ value, coerceFieldValue lib (some t) b.1 b.2.2 = .ok value ∧ c = (b.1, b.2.1, value)

variable {fs : List RowFilter}

theorem ConditionOf.read {c : String × String × Json} (hc : ConditionOf lib t pair c)
    (h : readParam lib t pair = some fs) :
    fs = [.condition c.1 c.2.1 c.2.2] ∧ isOperator c.2.1 = true ∧ pair.1 ≠ "filter" := by
  rcases hc with ⟨p, hplain, rfl⟩ | ⟨b, hb, value, hvalue, rfl⟩
  · rw [readParam_plain hplain] at h
    have heq : isOperator "eq" = true := by decide
    refine ⟨(Option.some.inj h).symm, heq, ?_⟩
    intro hkey
    rw [← eta pair, hkey, (filter_kinds pair.2).1] at hplain
    cases hplain
  · rw [readParam_bracket hb, readTyped] at h
    split_ifs at h with hop
    rw [hvalue] at h
    refine ⟨(Option.some.inj h).symm, hop, ?_⟩
    intro hkey
    rw [← eta pair, hkey, (@filter_kinds lib t pair.2).2.1] at hb
    cases hb

theorem read_of_groupOf {g : String × String} (hg : groupOf pair = some g) (h : readParam lib t pair = some fs) :
    g = pair ∧ (connective? pair.1).isSome ∧ pair.1 ≠ "filter" ∧ ∃ f, GroupReads lib pair f ∧ fs = [f] := by
  rw [groupOf] at hg
  split_ifs at hg with hconnective
  obtain ⟨c, hc⟩ := Option.isSome_iff_exists.mp hconnective
  rw [← eta pair, readParam_group hc] at h
  obtain ⟨parts, hparts, rfl⟩ := Option.map_eq_some_iff.mp h
  refine ⟨(Option.some.inj hg).symm, hconnective, ?_, _, ⟨c, parts, hc, hparts, rfl⟩, rfl⟩
  intro hkey
  rw [hkey] at hc
  cases hc

/-- What a parameter other than the filter stands for. -/
theorem mem_of_readParam (hfilter : pair.1 ≠ "filter") (h : readParam lib t pair = some fs) {f : RowFilter}
    (hf : f ∈ fs) : (∃ c, ConditionOf lib t pair c ∧ f = .condition c.1 c.2.1 c.2.2) ∨
      ∃ g, groupOf pair = some g ∧ GroupReads lib g f := by
  have hone : ∀ c, ConditionOf lib t pair c → ∃ c, ConditionOf lib t pair c ∧ f = .condition c.1 c.2.1 c.2.2 := by
    intro c hc
    rw [(hc.read h).1] at hf
    exact ⟨c, hc, mem_singleton.mp hf⟩
  cases hplain : plainOf lib t pair with
  | some p => exact .inl (hone _ (.inl ⟨p, hplain, rfl⟩))
  | none =>
    cases hb : bracketOf pair with
    | some b =>
      have hread := h
      rw [readParam_bracket hb, readTyped] at hread
      split_ifs at hread
      cases hcoerce : coerceFieldValue lib (some t) b.1 b.2.2 with
      | error e =>
        rw [hcoerce] at hread
        cases hread
      | ok value => exact .inl (hone _ (.inr ⟨b, hb, value, hcoerce, rfl⟩))
    | none =>
      cases hgroup : groupOf pair with
      | none =>
        rw [readParam_other hplain hb hfilter hgroup h] at hf
        cases hf
      | some g =>
        obtain ⟨rfl, -, -, f', hreads, rfl⟩ := read_of_groupOf hgroup h
        rw [mem_singleton.mp hf]
        exact .inr ⟨g, rfl, hreads⟩

theorem mem_suppliedFilters {pairs : List (String × String)} {filters : List RowFilter}
    (h : suppliedFilters lib t pairs = some filters) :
    (∀ pair ∈ pairs, ∃ fs, readParam lib t pair = some fs) ∧
      ∀ f, f ∈ filters ↔ ∃ pair ∈ pairs, ∃ fs, readParam lib t pair = some fs ∧ f ∈ fs := by
  induction pairs generalizing filters with
  | nil =>
    cases h
    exact ⟨nofun, fun f => ⟨nofun, fun ⟨_, hmem, _⟩ => nomatch hmem⟩⟩
  | cons pair pairs ih =>
    rw [suppliedFilters, mapM_cons] at h
    obtain ⟨readings, hreadings, rfl⟩ := Option.map_eq_some_iff.mp h
    simp only [Option.bind_eq_bind, Option.bind_eq_some_iff, Option.pure_def, Option.some.injEq] at hreadings
    obtain ⟨here, hhere, others, hothers, rfl⟩ := hreadings
    have hrest : suppliedFilters lib t pairs = some others.flatten := by
      rw [suppliedFilters, hothers]
      rfl
    obtain ⟨hread, hmem⟩ := ih hrest
    refine ⟨forall_mem_cons.mpr ⟨⟨here, hhere⟩, hread⟩, ?_⟩
    intro f
    rw [flatten_cons, mem_append, hmem f, exists_mem_cons_iff]
    refine or_congr_left ⟨fun hf => ⟨here, hhere, hf⟩, ?_⟩
    rintro ⟨fs, hfs, hf⟩
    rw [hhere] at hfs
    rwa [Option.some.inj hfs]

end Kinds

/-! ### Merging -/

section Merging

variable {lib : ParamLibrary} {t : RestType}

/-- The entries of a filter, where it is an object. -/
def entriesOf (filter : Option Json) : List (String × Json) := (filter.bind Json.asObject?).getD []

/-- The map in which the conditions of a request meet. -/
def mergedMap (added : List (String × String × Json)) (filter : Option Json) : List (String × Json) :=
  (entriesOf filter).foldl insertFilter (added.foldl (fun merged c => insertOperator c.1 c.2.1 c.2.2 merged) [])

theorem mergeWhere_eq {simple : List (String × Json)} {bracket : List (String × String × String)}
    {filter regular : Option Json} (h : mergeWhere lib (some t) simple bracket filter = .ok regular) :
    ∃ added : List (String × String × Json),
      (∀ c, c ∈ added ↔ (∃ p ∈ simple, c = (p.1, "eq", p.2)) ∨
        ∃ b ∈ bracket, ∃ value, coerceFieldValue lib (some t) b.1 b.2.2 = .ok value ∧ c = (b.1, b.2.1, value)) ∧
      regular = if (mergedMap added filter).isEmpty then none else some (.obj (mergedMap added filter)) := by
  simp only [mergeWhere, bind_eq_ok, pure_eq_ok] at h
  obtain ⟨merged, hmerged, rfl⟩ := h
  have hbrackets : ∀ (bracket : List (String × String × String)) (start merged : List (String × Json)),
      bracket.foldlM (fun merged condition => do
        let coerced ← coerceFieldValue lib (some t) condition.1 condition.2.2
        return insertOperator condition.1 condition.2.1 coerced merged) start = .ok merged →
      ∃ added : List (String × String × Json),
        (∀ c, c ∈ added ↔
          ∃ b ∈ bracket, ∃ value, coerceFieldValue lib (some t) b.1 b.2.2 = .ok value ∧ c = (b.1, b.2.1, value)) ∧
        merged = added.foldl (fun merged c => insertOperator c.1 c.2.1 c.2.2 merged) start := by
    intro bracket
    induction bracket with
    | nil =>
      intro start merged h
      exact ⟨[], by simp, (ok.inj h).symm⟩
    | cons b bracket ih =>
      intro start merged h
      simp only [foldlM_cons, bind_eq_ok, pure_eq_ok] at h
      obtain ⟨next, ⟨value, hvalue, rfl⟩, h⟩ := h
      obtain ⟨added, hadded, rfl⟩ := ih _ _ h
      refine ⟨(b.1, b.2.1, value) :: added, ?_, rfl⟩
      intro c
      rw [mem_cons, hadded c, exists_mem_cons_iff]
      refine or_congr_left ⟨fun hc => ⟨value, hvalue, hc⟩, ?_⟩
      rintro ⟨value', hvalue', hc⟩
      rw [hvalue] at hvalue'
      rw [hc, ok.inj hvalue']
  obtain ⟨added, hadded, rfl⟩ := hbrackets bracket _ merged hmerged
  refine ⟨simple.map (fun p => (p.1, "eq", p.2)) ++ added, ?_, ?_⟩
  · intro c
    rw [mem_append, mem_map, hadded c]
    simp only [eq_comm]
  · rw [mergedMap, foldl_append, foldl_map]
    rfl

theorem mem_entryNames {name : String} {entries : List (String × Json)} :
    name ∈ entryNames entries ↔ ∃ key val, (key, val) ∈ entries ∧
      name ∈ if (ofKey? key).isSome then fieldNames val else [key] := by
  induction entries with
  | nil => exact ⟨nofun, fun ⟨_, _, hmem, _⟩ => nomatch hmem⟩
  | cons e entries ih =>
    obtain ⟨key, val⟩ := e
    rw [entryNames, mem_append, ih]
    constructor
    · rintro (hname | ⟨k, v, hmem, hname⟩)
      · exact ⟨key, val, mem_cons_self, hname⟩
      · exact ⟨k, v, mem_cons_of_mem _ hmem, hname⟩
    · rintro ⟨k, v, hmem, hname⟩
      rcases mem_cons.mp hmem with heq | hmem
      · obtain ⟨rfl, rfl⟩ := mk.inj heq
        exact .inl hname
      · exact .inr ⟨k, v, hmem, hname⟩

/-- The map reads as the conditions added and the entries of the filter, when these agree. -/
theorem mergedMap_reads {added : List (String × String × Json)} {filter : Option Json} {gs : List RowFilter}
    (hfields : ∀ c ∈ added, ofKey? c.1 = none) (hoperators : ∀ c ∈ added, isOperator c.2.1 = true)
    (horder : InOrder (entriesOf filter)) (hops : ∀ key ops, (key, .obj ops) ∈ entriesOf filter → InOrder ops)
    (hread : readEntries (entriesOf filter) = some gs)
    (hagree : ∀ field op value value',
      (field, op, value) ∈ added ∨ .condition field op value ∈ gs →
        (field, op, value') ∈ added ∨ .condition field op value' ∈ gs → value = value') :
    (∃ fs, readEntries (mergedMap added filter) = some fs ∧
      ∀ f, f ∈ fs ↔ (∃ c ∈ added, f = .condition c.1 c.2.1 c.2.2) ∨ f ∈ gs) ∧
      ∀ name ∈ entryNames (mergedMap added filter), (∃ c ∈ added, c.1 = name) ∨ name ∈ entryNames (entriesOf filter) := by
  obtain ⟨hentry, hmem⟩ := mem_readEntries hread
  have hfield : ∀ {key val}, (key, val) ∈ entriesOf filter → ofKey? key = none →
      ∃ ops, val = .obj ops ∧ readOps key ops = some (ops.map fun e => .condition key e.1 e.2) ∧
        ∀ e ∈ ops, isOperator e.1 = true := by
    intro key val hkv hkey
    obtain ⟨fs, hfs⟩ := hentry key val hkv
    obtain ⟨ops, rfl, hreads⟩ := (readEntry_field hkey).mp hfs
    obtain ⟨hall, rfl⟩ := readOps_eq_some_iff.mp hreads
    exact ⟨ops, rfl, hreads, hall⟩
  have hcondition : ∀ {field ops op value}, ofKey? field = none → (field, .obj ops) ∈ entriesOf filter →
      (op, value) ∈ ops → .condition field op value ∈ gs := by
    intro field ops op value hkey hkv hop
    obtain ⟨ops', heq, hreads, -⟩ := hfield hkv hkey
    cases heq
    exact (hmem _).mpr ⟨field, .obj ops, _, hkv, (readEntry_field hkey).mpr ⟨ops, rfl, hreads⟩,
      mem_map.mpr ⟨(op, value), hop, rfl⟩⟩
  have hadded := Merged.empty.insertOperators added hfields fun field op value value' hvalue hvalue' =>
    hagree field op value value' (.inl (hvalue.resolve_left id)) (.inl (hvalue'.resolve_left id))
  have hmerged := hadded.insertFilters horder hops
    (fun key val hkv hkey => (hfield hkv hkey).imp fun ops h => h.1) (fun _ _ _ _ => id)
    fun field op value value' ops hkv hop hvalue' => by
      have hvalue' := hvalue'.resolve_left id
      have hkey := hfields _ hvalue'
      exact hagree field op value' value (.inl hvalue') (.inr (hcondition hkey hkv hop))
  have hkeys : ∀ field op value, ((False ∨ (field, op, value) ∈ added) ∨ ∃ ops, ofKey? field = none ∧
      (field, .obj ops) ∈ entriesOf filter ∧ (op, value) ∈ ops) → ofKey? field = none := by
    rintro field op value (hvalue | ⟨ops, hkey, -, -⟩)
    · exact hfields _ (hvalue.resolve_left id)
    · exact hkey
  have hknown : ∀ field op value, ((False ∨ (field, op, value) ∈ added) ∨ ∃ ops, ofKey? field = none ∧
      (field, .obj ops) ∈ entriesOf filter ∧ (op, value) ∈ ops) → isOperator op = true := by
    rintro field op value (hvalue | ⟨ops, hkey, hkv, hop⟩)
    · exact hoperators _ (hvalue.resolve_left id)
    · obtain ⟨ops', heq, -, hall⟩ := hfield hkv hkey
      cases heq
      exact hall _ hop
  obtain ⟨fs, hfs, hall⟩ := hmerged.reads hkeys hknown fun key val hval => hentry key val (hval.resolve_left id).2
  refine ⟨⟨fs, hfs, ?_⟩, ?_⟩
  · intro f
    rw [hall f]
    constructor
    · rintro (⟨field, op, value, (hvalue | ⟨ops, hkey, hkv, hop⟩), rfl⟩ | ⟨key, val, fs', hkey, hval, hfs', hf⟩)
      · exact .inl ⟨_, hvalue.resolve_left id, rfl⟩
      · exact .inr (hcondition hkey hkv hop)
      · exact .inr ((hmem f).mpr ⟨key, val, fs', (hval.resolve_left id).2, hfs', hf⟩)
    · rintro (⟨c, hc, rfl⟩ | hf)
      · exact .inl ⟨c.1, c.2.1, c.2.2, .inl (.inr hc), rfl⟩
      · obtain ⟨key, val, fs', hkv, hfs', hf⟩ := (hmem f).mp hf
        cases hkey : ofKey? key with
        | none =>
          obtain ⟨ops, rfl, hreads, -⟩ := hfield hkv hkey
          have hreads' := (readEntry_field hkey).mpr ⟨ops, rfl, hreads⟩
          rw [hfs'] at hreads'
          rw [Option.some.inj hreads'] at hf
          obtain ⟨e, he, rfl⟩ := mem_map.mp hf
          exact .inl ⟨key, e.1, e.2, .inr ⟨ops, hkey, hkv, he⟩, rfl⟩
        | some c =>
          exact .inr ⟨key, val, fs', by rw [hkey]; rfl, .inr ⟨by rw [hkey]; rfl, hkv⟩, hfs', hf⟩
  · intro name hname
    obtain ⟨key, val, hkv, hname⟩ := mem_entryNames.mp hname
    cases hkey : ofKey? key with
    | none =>
      rw [hkey, Option.isSome_none, if_neg Bool.false_ne_true] at hname
      obtain rfl := mem_singleton.mp hname
      rcases key_of_insertFilters hkv with hkv | ⟨e, he, heq⟩
      · exact .inl ((key_of_insertOperators hkv).resolve_left nofun)
      · refine .inr (mem_entryNames.mpr ⟨e.1, e.2, he, ?_⟩)
        rw [heq, hkey, Option.isSome_none, if_neg Bool.false_ne_true]
        exact mem_singleton_self _
    | some c =>
      have hsome : (ofKey? key).isSome := by rw [hkey]; rfl
      have hval := (hmerged.combinator hsome).mp ((lookup_eq_some_iff hmerged.order).mpr hkv)
      exact .inr (mem_entryNames.mpr ⟨key, val, (hval.resolve_left id).2, hname⟩)

end Merging

/-! ### The groups and the clause -/

section Clause

variable {lib : ParamLibrary}

theorem parseGroups_read {groups : List (String × String)} {written : List Json}
    (h : (groups.mapM fun group => parseLogicalGroup lib maxLogicalDepth group.2.toList ("_" ++ group.1)) =
      .ok written)
    (hread : ∀ group ∈ groups, ∃ f, GroupReads lib group f ∧ f.negationFree = true ∧
      ∀ name ∈ f.fields, ofKey? name = none) :
    ∃ gs, readItems written = some gs ∧ itemNames written = allFields gs ∧
      ∀ f, f ∈ gs ↔ ∃ group ∈ groups, GroupReads lib group f := by
  induction groups generalizing written with
  | nil =>
    cases h
    exact ⟨[], rfl, rfl, fun f => ⟨nofun, fun ⟨_, hmem, _⟩ => nomatch hmem⟩⟩
  | cons group groups ih =>
    simp only [mapM_cons, bind_eq_ok, pure_eq_ok] at h
    obtain ⟨json, hjson, others, hothers, rfl⟩ := h
    obtain ⟨gs, hgs, hnames, hmem⟩ := ih hothers fun g hg => hread g (mem_cons_of_mem _ hg)
    obtain ⟨f, ⟨c, fs, hc, hfs, rfl⟩, hfree, hfields⟩ := hread group mem_cons_self
    rw [negationFree, Bool.and_eq_true, decide_eq_true_eq] at hfree
    rw [key_of_connective? hc] at hjson
    obtain ⟨hreads, hnamed⟩ := parseLogicalGroup_reads lib maxLogicalDepth hfree.1 hfs hfree.2 hfields hjson
    refine ⟨.group c fs :: gs, ?_, ?_, ?_⟩
    · rw [readItems, hreads, hgs]
      rfl
    · rw [itemNames, hnamed, hnames, allFields, fields]
    · intro f
      rw [mem_cons, hmem f, exists_mem_cons_iff]
      exact or_congr_left ⟨fun hf => ⟨c, fs, hc, hfs, hf⟩, fun hf => hf.unique ⟨c, fs, hc, hfs, rfl⟩⟩

/-- A conjunction under `_and`. -/
theorem readJson_and {items : List Json} {fs : List RowFilter} (h : readItems items = some fs) :
    readJson (.obj [("_and", .arr items)]) = some (.group .and fs) ∧
      fieldNames (.obj [("_and", .arr items)]) = itemNames items := by
  have hkey : ofKey? "_and" = some .and := rfl
  constructor
  · simp only [readJson, readEntries, readEntry, hkey, h]
    rfl
  · rw [fieldNames, entryNames, hkey, Option.isSome_some, if_pos rfl, fieldNames, entryNames, append_nil]

/-- The clause for the map and the groups is the conjunction of what they read as. -/
theorem conjoined_reads {merged : List (String × Json)} {fs gs : List RowFilter} {groups : List Json}
    (hmerged : readEntries merged = some fs) (hgroups : readItems groups = some gs) :
    match mergeWhereWithLogical (if merged.isEmpty then none else some (.obj merged)) groups with
    | none => fs ++ gs = []
    | some clause =>
      (∃ f, readJson clause = some f ∧ ∀ row, f.holdsOn row = allHold row (fs ++ gs)) ∧
        fieldNames clause = entryNames merged ++ itemNames groups := by
  cases merged with
  | nil =>
    cases hmerged
    cases groups with
    | nil =>
      cases hgroups
      rfl
    | cons g groups =>
      cases groups with
      | nil =>
        simp only [readItems, Option.bind_eq_bind, Option.bind_eq_some_iff, Option.pure_def,
          Option.some.injEq] at hgroups
        obtain ⟨f, hf, _, rfl, rfl⟩ := hgroups
        refine ⟨⟨f, hf, ?_⟩, ?_⟩
        · intro row
          rw [nil_append, allHold, allHold, Bool.and_true]
        · rw [entryNames, itemNames, itemNames, nil_append, append_nil]
      | cons g' groups =>
        obtain ⟨hread, hnames⟩ := readJson_and hgroups
        exact ⟨⟨_, hread, fun row => rfl⟩, hnames⟩
  | cons e merged =>
    have hobject : readJson (.obj (e :: merged)) = some (conj fs) := by
      rw [readJson, hmerged]
      rfl
    cases groups with
    | nil =>
      cases hgroups
      refine ⟨⟨conj fs, hobject, ?_⟩, ?_⟩
      · intro row
        rw [holdsOn_conj, append_nil]
      · rw [fieldNames, itemNames, append_nil]
    | cons g groups =>
      have hitems : readItems (.obj (e :: merged) :: g :: groups) = some (conj fs :: gs) := by
        rw [readItems, hobject, hgroups]
        rfl
      obtain ⟨hread, hnames⟩ := readJson_and hitems
      refine ⟨⟨_, hread, ?_⟩, ?_⟩
      · intro row
        rw [holdsOn, allHold, holdsOn_conj, allHold_append]
      · exact hnames.trans (by rw [itemNames, fieldNames])

end Clause

/-! ### The filters of a request are kept -/

/-- The maps of `serde_json` hold their keys in order. -/
def ParamLibrary.MapsInOrder (lib : ParamLibrary) : Prop :=
  ∀ raw entries, lib.fromStr raw = .ok (.obj entries) →
    InOrder entries ∧ ∀ key ops, (key, .obj ops) ∈ entries → InOrder ops

/-- The parameters do not get in each other's way: one value for a field and operator, one filter, no negated group,
and fields of the type only, none of them named like a combinator. -/
structure Separate (lib : ParamLibrary) (t : RestType) (pairs : List (String × String)) (filters : List RowFilter) :
    Prop where
  agree : ∀ field op value value', .condition field op value ∈ filters → .condition field op value' ∈ filters →
    value = value'
  named : ∀ pair ∈ pairs, ∀ name ∈ paramNames lib t pair,
    (t.findFieldByOutputName name).isSome ∧ Connective.ofKey? name = none
  oneFilter : ∀ raw raw', ("filter", raw) ∈ pairs → ("filter", raw') ∈ pairs → raw = raw'
  unnegated : ∀ pair ∈ pairs, (connective? pair.1).isSome → ∀ fs, readParam lib t pair = some fs →
    allNegationFree fs = true

section Kept

variable {lib : ParamLibrary} {config : GetConfig} {d : QueryDefinition} {argTypes : List (String × FieldType)}
  {t : RestEntity} {pathPairs pairs : List (String × String)}

/-- Whatever is extracted, every parameter was understood, and the where clause is their conjunction. -/
def FiltersKept (lib : ParamLibrary) (config : GetConfig) (d : QueryDefinition) (argTypes : List (String × FieldType))
    (t : RestEntity) (pathPairs pairs : List (String × String)) : Prop :=
  ∀ params, extractParams lib config d argTypes (some t) pathPairs pairs = .ok params →
    ∃ filters, suppliedFilters lib t.toRestType pairs = some filters ∧
      Conjoins t.toRestType filters params.whereClause

/-- The steps behind the where clause of an extraction. -/
theorem extractParams_where {params : GetParams}
    (h : extractParams lib config d argTypes (some t) pathPairs pairs = .ok params) :
    ∃ classified groups filter regular,
      pairs.foldlM (classifyParam lib d (some t.toRestType)) {} = .ok classified ∧
      (classified.logical.mapM fun group => parseLogicalGroup lib maxLogicalDepth group.2.toList ("_" ++ group.1)) =
        .ok groups ∧
      parseFilter lib (some t.toRestType) config.toRestConfig classified.filter = .ok filter ∧
      mergeWhere lib (some t.toRestType) classified.simple classified.bracket filter = .ok regular ∧
      params.whereClause = mergeWhereWithLogical regular groups := by
  simp only [extractParams, bind_eq_ok, Refusal.lift_eq_ok] at h
  obtain ⟨_, -, classified, hclassified, _, -, _, -, _, -, _, -, groups, hgroups, filter, hfilter, regular, hregular,
    _, -, h⟩ := h
  refine ⟨classified, groups, filter, regular, hclassified, hgroups, hfilter, hregular, ?_⟩
  split_ifs at h
  · cases h
  · rw [← ok.inj h]

theorem parseFilter_eq {config : RestConfig} {t : Option RestType} {raw : Option String} {filter : Option Json}
    (h : parseFilter lib t config raw = .ok filter) :
    (raw = none ∧ filter = none) ∨ ∃ text parsed, raw = some text ∧ lib.fromStr text = .ok parsed ∧
      filter = some parsed := by
  cases raw with
  | none => exact .inl ⟨rfl, (ok.inj h).symm⟩
  | some text =>
    rw [parseFilter] at h
    split_ifs at h
    · cases h
    · cases hparsed : lib.fromStr text with
      | error e =>
        rw [hparsed] at h
        cases h
      | ok parsed =>
        rw [hparsed] at h
        dsimp only at h
        split_ifs at h
        · cases h
        · obtain ⟨_, -, rfl⟩ := map_eq_ok.mp h
          exact .inr ⟨text, parsed, rfl, hparsed, rfl⟩

theorem lastValue_mem {key value : String} (h : lastValue key pairs = some value) : (key, value) ∈ pairs := by
  induction pairs with
  | nil => cases h
  | cons pair pairs ih =>
    rw [lastValue_cons, Option.or_eq_some_iff] at h
    rcases h with hrest | ⟨-, hhere⟩
    · exact mem_cons_of_mem _ (ih hrest)
    · split_ifs at hhere with hkey
      rw [← hkey, ← Option.some.inj hhere]
      exact mem_cons_self

theorem lastValue_none {key : String} (h : lastValue key pairs = none) (value : String) : (key, value) ∉ pairs := by
  induction pairs with
  | nil => exact not_mem_nil
  | cons pair pairs ih =>
    rw [lastValue_cons, Option.or_eq_none_iff] at h
    obtain ⟨hrest, hhere⟩ := h
    split_ifs at hhere with hkey
    intro hmem
    rcases mem_cons.mp hmem with heq | hmem
    · exact hkey (congrArg fst heq).symm
    · exact ih hrest hmem

theorem paramNames_of_read {lib : ParamLibrary} {t : RestType} {pair : String × String} {fs : List RowFilter}
    (hfilter : pair.1 ≠ "filter") (h : readParam lib t pair = some fs) : paramNames lib t pair = allFields fs := by
  rw [paramNames, if_neg hfilter, h]
  rfl

variable {filters : List RowFilter}

/-- The filter of a request, when it is given once. -/
theorem filter_reads (hmaps : lib.MapsInOrder) (hsupplied : suppliedFilters lib t.toRestType pairs = some filters)
    (hone : ∀ raw raw', ("filter", raw) ∈ pairs → ("filter", raw') ∈ pairs → raw = raw')
    {filter : Option Json}
    (hfilter : parseFilter lib (some t.toRestType) config.toRestConfig (lastValue "filter" pairs) = .ok filter) :
    InOrder (entriesOf filter) ∧ (∀ key ops, (key, .obj ops) ∈ entriesOf filter → InOrder ops) ∧
      (∀ name ∈ entryNames (entriesOf filter), ∃ pair ∈ pairs, name ∈ paramNames lib t.toRestType pair) ∧
      ∃ gs, readEntries (entriesOf filter) = some gs ∧ ∀ f, f ∈ gs ↔
        ∃ raw, ("filter", raw) ∈ pairs ∧ ∃ fs, readParam lib t.toRestType ("filter", raw) = some fs ∧ f ∈ fs := by
  rcases parseFilter_eq hfilter with ⟨hnone, rfl⟩ | ⟨raw, parsed, hsome, hparsed, rfl⟩
  · refine ⟨List.Pairwise.nil, nofun, nofun, [], rfl, ?_⟩
    exact fun f => ⟨nofun, fun ⟨raw, hmem, _⟩ => absurd hmem (lastValue_none hnone raw)⟩
  · have hmem := lastValue_mem hsome
    obtain ⟨fs, hfs⟩ := (mem_suppliedFilters hsupplied).1 _ hmem
    have hread := hfs
    rw [readParam_filter] at hread
    obtain ⟨entries, hentries, hreads⟩ := Option.bind_eq_some_iff.mp hread
    have hobject : parsed = .obj entries := by
      rw [filterEntries, hparsed] at hentries
      cases parsed with
      | obj es => rw [Option.some.inj hentries]
      | _ => cases hentries
    subst hobject
    obtain ⟨horder, hops⟩ := hmaps raw entries hparsed
    refine ⟨horder, hops, ?_, fs, hreads, ?_⟩
    · intro name hname
      refine ⟨_, hmem, ?_⟩
      rw [paramNames, if_pos rfl, hentries]
      exact hname
    · intro f
      constructor
      · exact fun hf => ⟨raw, hmem, fs, hfs, hf⟩
      · rintro ⟨raw', hmem', fs', hfs', hf⟩
        obtain rfl := hone raw raw' hmem hmem'
        rw [hfs] at hfs'
        rwa [Option.some.inj hfs']

end Kept

/-! ### Users by name -/

/-- Users with a name. -/
def namedUser : RestEntity := ⟨⟨"User", [⟨"id", none, .int⟩, ⟨"name", none, .string⟩]⟩, []⟩

/-- A library that reads no JSON and no floats. -/
def textLibrary : ParamLibrary := ⟨fun _ => .error "unexpected text", fun _ => none, fun _ _ => .ok 0⟩

theorem textLibrary_mapsInOrder : textLibrary.MapsInOrder := nofun

/-- `GET /users?name=Ada&id[gt]=3&or=(id=4,name[ilike]=a)`. -/
def threeFilters : List (String × String) := [("name", "Ada"), ("id[gt]", "3"), ("or", "(id=4,name[ilike]=a)")]

def threeConditions : List RowFilter :=
  [.condition "name" "eq" (.str "Ada"), .condition "id" "gt" (jsonOfI64 3),
    .group .or [.condition "id" "eq" (jsonOfI64 4), .condition "name" "ilike" (.str "a")]]

theorem threeFilters_supplied :
    suppliedFilters textLibrary namedUser.toRestType threeFilters = some threeConditions := by
  rfl

theorem threeFilters_names : threeFilters.map (paramNames textLibrary namedUser.toRestType) =
    [["name"], ["id"], ["id", "name"]] := by
  decide +kernel

theorem threeFilters_unnegated :
    (threeFilters.map fun pair => (readParam textLibrary namedUser.toRestType pair).map allNegationFree) =
      [some true, some true, some true] := by
  decide +kernel

theorem namedUser_fields : ∀ name ∈ [["name"], ["id"], ["id", "name"]].flatten,
    (namedUser.toRestType.findFieldByOutputName name).isSome ∧ ofKey? name = none := by
  decide +kernel

theorem threeFilters_separate :
    Separate textLibrary namedUser.toRestType threeFilters threeConditions where
  agree := by
    intro field op value value' h h'
    simp only [threeConditions, mem_cons, RowFilter.condition.injEq, reduceCtorEq, not_mem_nil,
      or_false] at h h'
    rcases h with ⟨rfl, rfl, rfl⟩ | ⟨rfl, rfl, rfl⟩
    · rcases h' with ⟨-, -, heq⟩ | ⟨heq, -, -⟩
      · exact heq.symm
      · exact absurd heq (by decide)
    · rcases h' with ⟨heq, -, -⟩ | ⟨-, -, heq⟩
      · exact absurd heq (by decide)
      · exact heq.symm
  named := by
    intro pair hpair name hname
    have hmem : name ∈ (threeFilters.map (paramNames textLibrary namedUser.toRestType)).flatten :=
      mem_flatten.mpr ⟨_, mem_map_of_mem hpair, hname⟩
    rw [threeFilters_names] at hmem
    exact namedUser_fields name hmem
  oneFilter := by
    intro raw raw' h
    simp [threeFilters] at h
  unnegated := by
    intro pair hpair hconnective fs hfs
    have hmem : (readParam textLibrary namedUser.toRestType pair).map allNegationFree ∈
        [some true, some true, some true] := by
      rw [← threeFilters_unnegated]
      exact mem_map_of_mem hpair
    rw [hfs] at hmem
    simpa using hmem

/-- `GET /users?name=Ada&name=Ben`. -/
def twoNames : List (String × String) := [("name", "Ada"), ("name", "Ben")]

theorem twoNames_where :
    ((extractParams textLibrary ⟨⟨100, 20, 4096, 10000⟩, 3, 500⟩ BulkHandler.usersQuery [] (some namedUser) []
      twoNames).toOption.map fun params => params.whereClause) =
      some (some (.obj [("name", .obj [("eq", .str "Ben")])])) := by
  rfl

theorem twoNames_supplied : suppliedFilters textLibrary namedUser.toRestType twoNames =
    some [.condition "name" "eq" (.str "Ada"), .condition "name" "eq" (.str "Ben")] := by
  rfl

end FraiseQL.Rest
