import FraiseQL.RestFilterText

/-! The map in which `merge_where` collects the conditions of a REST request. It holds one value for each field and
operator; conditions that agree on these are all kept, and the map reads as the conditions and the combined filters
that were put into it. -/

namespace FraiseQL.Rest

open MapEntries RowFilter Connective List Prod

/-! ### Maps of operators -/

variable {entries : List (String × Json)}

theorem finalValue_eq_lookup (h : InOrder entries) (key : String) :
    finalValue key entries = Json.lookup key entries := by
  induction entries with
  | nil => rfl
  | cons e entries ih =>
    obtain ⟨k, v⟩ := e
    obtain ⟨hfirst, hrest⟩ := pairwise_cons.mp h
    rw [finalValue, lookup_cons, ih hrest]
    by_cases hkey : k = key
    · have hnone : Json.lookup key entries = none :=
        lookup_eq_none fun e hmem => hkey ▸ (hfirst e hmem).ne'
      rw [hnone, if_pos hkey, Option.none_or]
    · rw [if_neg hkey, if_neg hkey, Option.or_none]

theorem lookup_eq_some_iff (h : InOrder entries) {key : String} {value : Json} :
    Json.lookup key entries = some value ↔ (key, value) ∈ entries := by
  induction entries with
  | nil => exact ⟨nofun, nofun⟩
  | cons e entries ih =>
    obtain ⟨k, v⟩ := e
    obtain ⟨hfirst, hrest⟩ := pairwise_cons.mp h
    rw [lookup_cons, mem_cons]
    by_cases hkey : k = key
    · rw [if_pos hkey]
      constructor
      · intro hvalue
        rw [← hkey, ← Option.some.inj hvalue]
        exact .inl rfl
      · rintro (heq | hmem)
        · rw [(mk.inj heq).2]
        · exact absurd hkey (hfirst _ hmem).ne
    · rw [if_neg hkey, ih hrest]
      constructor
      · exact .inr
      · rintro (heq | hmem)
        · exact absurd (mk.inj heq).1.symm hkey
        · exact hmem

/-- The operators of a field in a map. -/
def knownOps (field : String) (merged : List (String × Json)) : List (String × Json) :=
  ((Json.lookup field merged).bind Json.asObject?).getD []

/-- A map that holds some conditions, each under its field and operator, and some entries under combinators. -/
structure Merged (merged : List (String × Json)) (conditions : String → String → Json → Prop)
    (combined : String → Json → Prop) : Prop where
  order : InOrder merged
  ops : ∀ {key val}, Json.lookup key merged = some val → Connective.ofKey? key = none →
    ∃ ops, val = .obj ops ∧ InOrder ops
  condition : ∀ {field op value}, Connective.ofKey? field = none →
    (Json.lookup op (knownOps field merged) = some value ↔ conditions field op value)
  combinator : ∀ {key val}, (Connective.ofKey? key).isSome →
    (Json.lookup key merged = some val ↔ combined key val)

namespace Merged

variable {merged : List (String × Json)} {conditions : String → String → Json → Prop}
  {combined : String → Json → Prop}

theorem empty : Merged [] (fun _ _ _ => False) fun _ _ => False where
  order := List.Pairwise.nil
  ops := by rintro _ _ ⟨⟩
  condition := fun _ => iff_of_false (by rintro ⟨⟩) id
  combinator := fun _ => iff_of_false (by rintro ⟨⟩) id

variable {field : String}

variable (h : Merged merged conditions combined)
include h

theorem knownOps_inOrder (hfield : ofKey? field = none) : InOrder (knownOps field merged) := by
  rw [knownOps]
  cases hlookup : Json.lookup field merged with
  | none => exact List.Pairwise.nil
  | some val =>
    obtain ⟨ops, rfl, hops⟩ := h.ops hlookup hfield
    exact hops

/-- The operators of one field are replaced by more. -/
theorem insertOps {ops : List (String × Json)}
    {more : String → Json → Prop} (hfield : ofKey? field = none) (hops : InOrder ops)
    (hmore : ∀ op value, Json.lookup op ops = some value ↔ conditions field op value ∨ more op value) :
    Merged (insertEntry field (.obj ops) merged)
      (fun f op value => conditions f op value ∨ f = field ∧ more op value) combined where
  order := insertEntry_inOrder field _ h.order
  ops := by
    intro key val hlookup hkey
    rw [lookup_insertEntry] at hlookup
    split_ifs at hlookup with heq
    · exact ⟨ops, (Option.some.inj hlookup).symm, hops⟩
    · exact h.ops hlookup hkey
  condition := by
    intro f op value hf
    rw [knownOps, lookup_insertEntry]
    by_cases heq : field = f
    · obtain rfl := heq
      rw [if_pos rfl]
      exact (hmore op value).trans (or_congr_right (and_iff_right rfl).symm)
    · rw [if_neg heq]
      exact (h.condition hf).trans ⟨.inl, fun hor => hor.resolve_right fun hboth => heq hboth.1.symm⟩
  combinator := by
    intro key val hkey
    have hne : field ≠ key := by
      rintro rfl
      rw [hfield] at hkey
      cases hkey
    rw [lookup_insertEntry, if_neg hne]
    exact h.combinator hkey

/-- `insertOperator` adds a condition, where it replaces no other value. -/
theorem insertOperator {op : String} {value : Json}
    (hfield : ofKey? field = none) (hagree : ∀ value', conditions field op value' → value' = value) :
    Merged (insertOperator field op value merged)
      (fun f o v => conditions f o v ∨ f = field ∧ o = op ∧ v = value) combined := by
  refine h.insertOps hfield (insertEntry_inOrder op value (h.knownOps_inOrder hfield)) ?_
  intro o v
  rw [lookup_insertEntry]
  by_cases heq : op = o
  · obtain rfl := heq
    rw [if_pos rfl, Option.some.injEq]
    constructor
    · exact fun hvalue => .inr ⟨rfl, hvalue.symm⟩
    · rintro (hcondition | hvalue)
      · exact (hagree v hcondition).symm
      · exact hvalue.2.symm
  · rw [if_neg heq]
    exact (h.condition hfield).trans ⟨.inl, fun hor => hor.resolve_right fun hboth => heq hboth.1.symm⟩

/-- An entry of a filter adds the conditions under its field. -/
theorem insertField {ops : List (String × Json)} (hfield : ofKey? field = none) (hops : InOrder ops)
    (hagree : ∀ op value value', (op, value) ∈ ops → conditions field op value' → value' = value) :
    Merged (insertFilter merged (field, .obj ops))
      (fun f op value => conditions f op value ∨ f = field ∧ (op, value) ∈ ops) combined := by
  refine h.insertOps hfield (insertAll_inOrder ops (h.knownOps_inOrder hfield)) ?_
  intro op value
  rw [lookup_insertAll, finalValue_eq_lookup hops, Option.or_eq_some_iff, lookup_eq_some_iff hops]
  constructor
  · rintro (hmem | ⟨-, hcondition⟩)
    · exact .inr hmem
    · exact .inl ((h.condition hfield).mp hcondition)
  · rintro (hcondition | hmem)
    · cases hlookup : Json.lookup op ops with
      | none => exact .inr ⟨rfl, (h.condition hfield).mpr hcondition⟩
      | some value' =>
        have hmem := (lookup_eq_some_iff hops).mp hlookup
        rw [hagree op value' value hmem hcondition]
        exact .inl hmem
    · exact .inl hmem

/-- An entry of a filter under a combinator stands as it is. -/
theorem insertCombined {key : String} {val : Json} (hkey : (ofKey? key).isSome) (hfresh : ∀ val', ¬combined key val')
    (hval : ∀ ops, val = .obj ops → InOrder ops) :
    Merged (insertFilter merged (key, val)) conditions
      (fun k v => combined k v ∨ k = key ∧ v = val) := by
  have hnone : Json.lookup key merged = none := by
    cases hlookup : Json.lookup key merged with
    | none => rfl
    | some val' => exact absurd ((h.combinator hkey).mp hlookup) (hfresh val')
  have hinsert : insertFilter merged (key, val) = insertEntry key val merged := by
    cases val with
    | obj ops =>
      have hkept : ops.foldl (fun known op => insertEntry op.1 op.2 known) [] = ops := by
        refine eq_of_lookup (insertAll_inOrder ops List.Pairwise.nil) (hval ops rfl) ?_
        intro op
        rw [lookup_insertAll, finalValue_eq_lookup (hval ops rfl), lookup_nil, Option.or_none]
      rw [insertFilter, hnone]
      exact congrArg (fun ops => insertEntry key (.obj ops) merged) hkept
    | _ => rfl
  rw [hinsert]
  have hother : ∀ {f : String}, ofKey? f = none → key ≠ f := by
    rintro f hf rfl
    rw [hf] at hkey
    cases hkey
  exact {
    order := insertEntry_inOrder key val h.order
    ops := by
      intro k v hlookup hk
      rw [lookup_insertEntry, if_neg (hother hk)] at hlookup
      exact h.ops hlookup hk
    condition := by
      intro f op value hf
      rw [knownOps, lookup_insertEntry, if_neg (hother hf)]
      exact h.condition hf
    combinator := by
      intro k v hk
      rw [lookup_insertEntry]
      by_cases heq : key = k
      · obtain rfl := heq
        rw [if_pos rfl, Option.some.injEq]
        constructor
        · exact fun hv => .inr ⟨rfl, hv.symm⟩
        · rintro (hcombined | hv)
          · exact absurd hcombined (hfresh v)
          · exact hv.2.symm
      · rw [if_neg heq]
        exact (h.combinator hk).trans ⟨.inl, fun hor => hor.resolve_right fun hboth => heq hboth.1.symm⟩ }

theorem congr {conditions' : String → String → Json → Prop} {combined' : String → Json → Prop}
    (hconditions : ∀ field op value, conditions field op value ↔ conditions' field op value)
    (hcombined : ∀ key val, combined key val ↔ combined' key val) : Merged merged conditions' combined' where
  order := h.order
  ops := h.ops
  condition := fun hfield => (h.condition hfield).trans (hconditions _ _ _)
  combinator := fun hkey => (h.combinator hkey).trans (hcombined _ _)

/-- Conditions that agree are all kept. -/
theorem insertOperators (added : List (String × String × Json)) (hfields : ∀ c ∈ added, ofKey? c.1 = none)
    (hagree : ∀ field op value value', conditions field op value ∨ (field, op, value) ∈ added →
      conditions field op value' ∨ (field, op, value') ∈ added → value = value') :
    Merged (added.foldl (fun merged c => Rest.insertOperator c.1 c.2.1 c.2.2 merged) merged)
      (fun field op value => conditions field op value ∨ (field, op, value) ∈ added) combined := by
  induction added generalizing merged conditions with
  | nil => exact h.congr (fun _ _ _ => by simp) fun _ _ => Iff.rfl
  | cons c added ih =>
    obtain ⟨field, op, value⟩ := c
    have hstep : Merged (Rest.insertOperator field op value merged) _ combined :=
      h.insertOperator (hfields _ mem_cons_self)
        fun value' hvalue' => hagree field op value' value (.inl hvalue') (.inr mem_cons_self)
    have hmem : ∀ f o v, (conditions f o v ∨ f = field ∧ o = op ∧ v = value) ∨ (f, o, v) ∈ added ↔
        conditions f o v ∨ (f, o, v) ∈ (field, op, value) :: added := by
      intro f o v
      simp [or_assoc]
    refine (ih hstep (fun c hc => hfields c (mem_cons_of_mem _ hc)) ?_).congr hmem fun _ _ => Iff.rfl
    intro f o v v' hv hv'
    exact hagree f o v v' ((hmem f o v).mp hv) ((hmem f o v').mp hv')

/-- The entries of a filter whose conditions agree with the others are all kept. -/
theorem insertFilters {entries : List (String × Json)}
    (horder : InOrder entries) (hops : ∀ key ops, (key, .obj ops) ∈ entries → InOrder ops)
    (hfields : ∀ key val, (key, val) ∈ entries → ofKey? key = none → ∃ ops, val = .obj ops)
    (hfresh : ∀ key val val', (key, val) ∈ entries → ¬combined key val')
    (hagree : ∀ field op value value' ops, (field, .obj ops) ∈ entries → (op, value) ∈ ops →
      conditions field op value' → value' = value) :
    Merged (entries.foldl insertFilter merged)
      (fun field op value => conditions field op value ∨
        ∃ ops, ofKey? field = none ∧ (field, .obj ops) ∈ entries ∧ (op, value) ∈ ops)
      (fun key val => combined key val ∨ (ofKey? key).isSome ∧ (key, val) ∈ entries) := by
  induction entries generalizing merged conditions combined with
  | nil => exact h.congr (fun _ _ _ => by simp) fun _ _ => by simp
  | cons e entries ih =>
    obtain ⟨key, val⟩ := e
    obtain ⟨hfirst, hrest⟩ := pairwise_cons.mp horder
    have hne : ∀ {key' val'}, (key', val') ∈ entries → key' ≠ key := fun hmem => (hfirst _ hmem).ne'
    have hops' : ∀ key ops, (key, .obj ops) ∈ entries → InOrder ops :=
      fun key ops hmem => hops key ops (mem_cons_of_mem _ hmem)
    have hfields' : ∀ key val, (key, val) ∈ entries → ofKey? key = none → ∃ ops, val = .obj ops :=
      fun key val hmem => hfields key val (mem_cons_of_mem _ hmem)
    cases hkey : ofKey? key with
    | none =>
      obtain ⟨ops, rfl⟩ := hfields key val mem_cons_self hkey
      have hstep := h.insertField hkey (hops key ops mem_cons_self)
        fun op value value' hmem hvalue' => hagree key op value value' ops mem_cons_self hmem hvalue'
      refine (ih hstep hrest hops' hfields' ?_ ?_).congr ?_ ?_
      · exact fun k v v' hmem => hfresh k v v' (mem_cons_of_mem _ hmem)
      · intro field op value value' ops' hmem hop hvalue'
        rcases hvalue' with hvalue' | ⟨heq, -⟩
        · exact hagree field op value value' ops' (mem_cons_of_mem _ hmem) hop hvalue'
        · exact absurd heq (hne hmem)
      · intro field op value
        constructor
        · rintro ((hvalue | ⟨rfl, hmem⟩) | ⟨ops', hf, hmem, hop⟩)
          · exact .inl hvalue
          · exact .inr ⟨ops, hkey, mem_cons_self, hmem⟩
          · exact .inr ⟨ops', hf, mem_cons_of_mem _ hmem, hop⟩
        · rintro (hvalue | ⟨ops', hf, hmem, hop⟩)
          · exact .inl (.inl hvalue)
          · rcases mem_cons.mp hmem with heq | hmem
            · obtain ⟨rfl, heq⟩ := mk.inj heq
              cases heq
              exact .inl (.inr ⟨rfl, hop⟩)
            · exact .inr ⟨ops', hf, hmem, hop⟩
      · intro k v
        refine or_congr_right (and_congr_right fun hk => ?_)
        have hother : (k, v) ≠ (key, .obj ops) := by
          intro heq
          rw [(mk.inj heq).1, hkey] at hk
          cases hk
        exact (mem_cons.trans (or_iff_right hother)).symm
    | some c =>
      have hsome : (ofKey? key).isSome := by rw [hkey]; rfl
      have hstep := h.insertCombined hsome (fun val' => hfresh key val val' mem_cons_self)
        fun ops hval => hops key ops (hval ▸ mem_cons_self)
      refine (ih hstep hrest hops' hfields' ?_ ?_).congr ?_ ?_
      · rintro k v v' hmem (hcombined | ⟨heq, -⟩)
        · exact hfresh k v v' (mem_cons_of_mem _ hmem) hcombined
        · exact hne hmem heq
      · intro field op value value' ops hmem
        exact hagree field op value value' ops (mem_cons_of_mem _ hmem)
      · intro field op value
        refine or_congr_right (exists_congr fun ops => and_congr_right fun hf => and_congr_left' ?_)
        have hother : (field, Json.obj ops) ≠ (key, val) := by
          intro heq
          rw [(mk.inj heq).1, hkey] at hf
          cases hf
        exact (mem_cons.trans (or_iff_right hother)).symm
      · intro k v
        constructor
        · rintro ((hcombined | ⟨rfl, rfl⟩) | ⟨hk, hmem⟩)
          · exact .inl hcombined
          · exact .inr ⟨hsome, mem_cons_self⟩
          · exact .inr ⟨hk, mem_cons_of_mem _ hmem⟩
        · rintro (hcombined | ⟨hk, hmem⟩)
          · exact .inl (.inl hcombined)
          · rcases mem_cons.mp hmem with heq | hmem
            · obtain ⟨rfl, rfl⟩ := mk.inj heq
              exact .inl (.inr ⟨rfl, rfl⟩)
            · exact .inr ⟨hk, hmem⟩

end Merged

/-! ### The keys of the map -/

theorem key_of_insertOperators {added : List (String × String × Json)} {merged : List (String × Json)}
    {e : String × Json}
    (h : e ∈ added.foldl (fun merged c => insertOperator c.1 c.2.1 c.2.2 merged) merged) :
    e ∈ merged ∨ ∃ c ∈ added, c.1 = e.1 := by
  induction added generalizing merged with
  | nil => exact .inl h
  | cons c added ih =>
    rcases ih h with hmem | ⟨c', hc', heq⟩
    · rcases mem_insertEntry hmem with heq | hmem
      · exact .inr ⟨c, mem_cons_self, heq.symm⟩
      · exact .inl hmem
    · exact .inr ⟨c', mem_cons_of_mem _ hc', heq⟩

theorem key_of_insertFilters {merged : List (String × Json)} {e : String × Json}
    (h : e ∈ entries.foldl insertFilter merged) : e ∈ merged ∨ ∃ e' ∈ entries, e'.1 = e.1 := by
  induction entries generalizing merged with
  | nil => exact .inl h
  | cons e' entries ih =>
    rcases ih h with hmem | ⟨e'', he'', heq⟩
    · have hkey : e.1 = e'.1 ∨ e ∈ merged := by
        obtain ⟨key, val⟩ := e'
        cases val <;> exact mem_insertEntry hmem
      rcases hkey with heq | hmem
      · exact .inr ⟨e', mem_cons_self, heq.symm⟩
      · exact .inl hmem
    · exact .inr ⟨e'', mem_cons_of_mem _ he'', heq⟩

/-! ### What the map says -/

section Reads

variable {merged : List (String × Json)} {conditions : String → String → Json → Prop}
  {combined : String → Json → Prop}

theorem Merged.readField (h : Merged merged conditions combined)
    (hoperators : ∀ field op value, conditions field op value → isOperator op = true) {key : String} {val : Json}
    (hkey : ofKey? key = none) (hmem : (key, val) ∈ merged) :
    ∃ fs, readEntry key val = some fs ∧
      ∀ f, f ∈ fs ↔ ∃ op value, conditions key op value ∧ f = .condition key op value := by
  have hlookup := (lookup_eq_some_iff h.order).mpr hmem
  obtain ⟨ops, rfl, hops⟩ := h.ops hlookup hkey
  have hknown : knownOps key merged = ops := by
    rw [knownOps, hlookup]
    rfl
  have hcondition : ∀ op value, (op, value) ∈ ops ↔ conditions key op value := by
    intro op value
    rw [← lookup_eq_some_iff hops, ← hknown]
    exact h.condition hkey
  refine ⟨ops.map fun e => .condition key e.1 e.2, ?_, ?_⟩
  · refine (readEntry_field hkey).mpr ⟨ops, rfl, readOps_eq_some_iff.mpr ⟨?_, rfl⟩⟩
    exact fun e he => hoperators key e.1 e.2 ((hcondition e.1 e.2).mp he)
  · intro f
    rw [mem_map]
    constructor
    · rintro ⟨e, he, rfl⟩
      exact ⟨e.1, e.2, (hcondition e.1 e.2).mp he, rfl⟩
    · rintro ⟨op, value, hvalue, rfl⟩
      exact ⟨(op, value), (hcondition op value).mpr hvalue, rfl⟩

/-- The filters a map reads as are its conditions and what its combined entries read as. -/
theorem Merged.reads (h : Merged merged conditions combined)
    (hfields : ∀ field op value, conditions field op value → ofKey? field = none)
    (hoperators : ∀ field op value, conditions field op value → isOperator op = true)
    (hcombined : ∀ key val, combined key val → ∃ fs, readEntry key val = some fs) :
    ∃ fs, readEntries merged = some fs ∧ ∀ f, f ∈ fs ↔
      (∃ field op value, conditions field op value ∧ f = .condition field op value) ∨
        (∃ key val gs, (ofKey? key).isSome ∧ combined key val ∧ readEntry key val = some gs ∧ f ∈ gs) := by
  have hentry : ∀ {key val}, (ofKey? key).isSome → ((key, val) ∈ merged ↔ combined key val) := by
    intro key val hkey
    rw [← lookup_eq_some_iff h.order]
    exact h.combinator hkey
  have hread : ∀ key val, (key, val) ∈ merged → ∃ fs, readEntry key val = some fs := by
    intro key val hmem
    cases hkey : ofKey? key with
    | none =>
      obtain ⟨fs, hfs, -⟩ := h.readField hoperators hkey hmem
      exact ⟨fs, hfs⟩
    | some c => exact hcombined key val ((hentry (Option.isSome_iff_exists.mpr ⟨c, hkey⟩)).mp hmem)
  obtain ⟨fs, hfs⟩ := readEntries_eq hread
  refine ⟨fs, hfs, ?_⟩
  intro f
  rw [(mem_readEntries hfs).2 f]
  constructor
  · rintro ⟨key, val, gs, hmem, hgs, hf⟩
    cases hkey : ofKey? key with
    | none =>
      obtain ⟨gs', hgs', hall⟩ := h.readField hoperators hkey hmem
      obtain rfl := Option.some.inj (hgs.symm.trans hgs')
      obtain ⟨op, value, hvalue, rfl⟩ := (hall f).mp hf
      exact .inl ⟨key, op, value, hvalue, rfl⟩
    | some c =>
      have hsome := Option.isSome_iff_exists.mpr ⟨c, hkey⟩
      exact .inr ⟨key, val, gs, hkey ▸ rfl, (hentry hsome).mp hmem, hgs, hf⟩
  · rintro (⟨field, op, value, hvalue, rfl⟩ | ⟨key, val, gs, hkey, hval, hgs, hf⟩)
    · have hkey := hfields field op value hvalue
      have hfound := (h.condition hkey).mpr hvalue
      rw [knownOps] at hfound
      cases hlookup : Json.lookup field merged with
      | none =>
        rw [hlookup] at hfound
        cases hfound
      | some val =>
        have hmem := (lookup_eq_some_iff h.order).mp hlookup
        obtain ⟨gs, hgs, hall⟩ := h.readField hoperators hkey hmem
        exact ⟨field, val, gs, hmem, hgs, (hall _).mpr ⟨op, value, hvalue, rfl⟩⟩
    · exact ⟨key, val, gs, (hentry hkey).mpr hval, hgs, hf⟩

end Reads

end FraiseQL.Rest
