import FraiseQL.WhereGeneratorLexing

/-! Placeholders and the values they are bound to. An ordinary condition numbers its placeholders with the
counter, which starts at the offset; an extended condition numbers its own by the length of the vector of
values and leaves the counter alone. The two agree as long as no ordinary value follows an extended one and,
where there is an extended one, the offset is zero. -/

namespace FraiseQL.WhereGenerator

open SqlLex Dialect Outcome Condition List

/-! ### Numbers -/

/-- The number of values a condition binds. -/
def bindCount (op : WhereOperator) (value : Json) : Nat :=
  match op with
  | .isIn | .nin | .matchesAnyLquery | .lca => (value.asArray?.getD []).length
  | .isNull | .isIPv4 | .isIPv6 | .isPrivate | .isPublic | .isLoopback => 0
  | .extended (.emailDomainIn domains) => domains.length
  | _ => 1

mutual

/-- For each value a clause binds, in order, whether an extended condition binds it. -/
def bindKinds : WhereClause → List Bool
  | .field _ op value => List.replicate (bindCount op value) (isExtended op)
  | .and clauses => bindKindsAll clauses
  | .or clauses => bindKindsAll clauses
  | .not clause => bindKinds clause
  | .nativeField _ _ _ _ => [false]

def bindKindsAll : List WhereClause → List Bool
  | [] => []
  | clause :: clauses => bindKinds clause ++ bindKindsAll clauses

end

/-- The numbers the placeholders get, from a counter and a number of values bound before. -/
def numbers : List Bool → Nat → Nat → List Nat
  | [], _, _ => []
  | false :: kinds, counter, length => (counter + 1) :: numbers kinds (counter + 1) (length + 1)
  | true :: kinds, counter, length => (length + 1) :: numbers kinds counter (length + 1)

theorem numbers_append (a b : List Bool) (counter length : Nat) : numbers (a ++ b) counter length =
    numbers a counter length ++ numbers b (counter + a.count false) (length + a.length) := by
  induction a generalizing counter length with
  | nil => rfl
  | cons kind a ih =>
    cases kind with
    | false =>
      rw [cons_append, numbers, numbers, ih, count_cons_self, length_cons, cons_append]
      congr 3 <;> omega
    | true =>
      have hcount : (true :: a).count false = a.count false := count_cons_of_ne (by decide)
      rw [cons_append, numbers, numbers, ih, hcount, length_cons, cons_append]
      congr 3
      omega

variable (kinds : List Bool)

theorem numbers_length (counter length : Nat) : (numbers kinds counter length).length = kinds.length := by
  induction kinds generalizing counter length with
  | nil => rfl
  | cons kind kinds ih => cases kind <;> simp [numbers, ih]

/-- Behind the counter, ordinary values no longer get their number. -/
theorem numbers_behind {counter k n : Nat} (h : counter < k + n) :
    numbers kinds counter n = range' (k + n + 1) kinds.length ↔
      (∀ kind ∈ kinds, kind = true) ∧ (true ∈ kinds → k = 0) := by
  induction kinds generalizing counter n with
  | nil => simp [numbers]
  | cons kind kinds ih =>
    rw [length_cons, range'_succ]
    cases kind with
    | false =>
      have hne : ¬counter = k + n := by omega
      simp [numbers, hne]
    | true =>
      have hrest := @ih counter (n + 1) (by omega)
      rw [← Nat.add_assoc] at hrest
      rw [numbers, cons.injEq, hrest]
      simp only [mem_cons, true_or, forall_const, forall_eq_or_imp, true_and]
      constructor
      · rintro ⟨hnumber, hall, _⟩
        exact ⟨hall, by omega⟩
      · rintro ⟨hall, rfl⟩
        exact ⟨by omega, hall, fun _ => rfl⟩

/-- The numbers are consecutive from the offset on exactly when the two ways of counting agree. -/
theorem numbers_eq_range'_iff (k n : Nat) :
    numbers kinds (k + n) n = range' (k + n + 1) kinds.length ↔
      kinds.Pairwise (fun a b => a = true → b = true) ∧ (true ∈ kinds → k = 0) := by
  induction kinds generalizing n with
  | nil => simp [numbers]
  | cons kind kinds ih =>
    rw [length_cons, range'_succ, pairwise_cons]
    cases kind with
    | false =>
      have hrest := ih (n + 1)
      rw [← Nat.add_assoc] at hrest
      rw [numbers, cons.injEq, hrest]
      simp
    | true =>
      have hrest := @numbers_behind kinds (k + n) k (n + 1) (by omega)
      rw [← Nat.add_assoc] at hrest
      rw [numbers, cons.injEq, hrest]
      simp only [mem_cons, true_or, forall_const]
      constructor
      · rintro ⟨hnumber, hall, _⟩
        have hk : k = 0 := by omega
        refine ⟨⟨hall, ?_⟩, hk⟩
        exact pairwise_of_forall_mem_list fun a _ b hb _ => hall b hb
      · rintro ⟨⟨hall, _⟩, rfl⟩
        exact ⟨by omega, hall, fun _ => rfl⟩

/-! ### Values -/

/-- The values of a formula's conditions under the numbers of their placeholders, in the order of the text. -/
def boundOf (f : Formula Condition) : List (Nat × Json) := f.leaves.flatMap Condition.bound

/-- What binding values of the given kinds does to the state. -/
structure Binds (kinds : List Bool) (s s' : GenState) (bound : List (Nat × Json)) : Prop where
  numbers : bound.map Prod.fst = numbers kinds s.counter s.params.length
  params : s'.params = s.params ++ bound.map Prod.snd
  counter : s'.counter = s.counter + kinds.count false

theorem Binds.nil (s : GenState) : Binds [] s s [] :=
  ⟨rfl, (append_nil _).symm, rfl⟩

theorem Binds.append {a b : List Bool} {s s' s'' : GenState} {bound rest : List (Nat × Json)}
    (ha : Binds a s s' bound) (hb : Binds b s' s'' rest) : Binds (a ++ b) s s'' (bound ++ rest) := by
  have hlength : s'.params.length = s.params.length + a.length := by
    have hmap := congrArg length ha.numbers
    rw [length_map, numbers_length] at hmap
    rw [ha.params, length_append, length_map, hmap]
  constructor
  · rw [map_append, ha.numbers, hb.numbers, numbers_append, ha.counter, hlength]
  · rw [hb.params, ha.params, map_append, append_assoc]
  · rw [hb.counter, ha.counter, count_append, Nat.add_assoc]

theorem pushParam_binds (s : GenState) (v : Json) :
    Binds [false] s (pushParam s v).2 [((pushParam s v).1, v)] := ⟨rfl, rfl, rfl⟩

theorem pushExtended_binds (s : GenState) (v : Json) :
    Binds [true] s (pushExtended s v).2 [((pushExtended s v).1, v)] := ⟨rfl, rfl, rfl⟩

theorem pushAll_binds {push : GenState → Json → Nat × GenState} {kind : Bool}
    (hpush : ∀ s v, Binds [kind] s (push s v).2 [((push s v).1, v)]) (values : List Json) (s : GenState) :
    Binds (replicate values.length kind) s (pushAll push values s).2 (pushAll push values s).1 := by
  induction values generalizing s with
  | nil => exact Binds.nil s
  | cons v values ih => exact (hpush s v).append (ih (push s v).2)

section Lengths

variable {value : Json} {d : Dialect} {values : List Json} {t : Template}

theorem binary_length {sql : Dialect → Except FraiseQLError Template}
    (h : binary sql value d = .ok (values, t)) : values.length = 1 := by
  simp only [binary, map_eq_ok, Prod.mk.injEq] at h
  obtain ⟨_, _, rfl, _⟩ := h
  rfl

theorem patternMatch_length {name : String} {like : Template → Template → Dialect → Template}
    {parts : List Template} (h : patternMatch name like parts value d = .ok (values, t)) :
    values.length = 1 := by
  simp only [patternMatch, bind_eq_ok, pure_eq_ok, Prod.mk.injEq] at h
  obtain ⟨_, _, rfl, _⟩ := h
  rfl

theorem regexMatch_length {caseInsensitive negate : Bool}
    (h : regexMatch caseInsensitive negate value d = .ok (values, t)) : values.length = 1 := by
  rw [regexMatch] at h
  split at h
  · simp only [bind_eq_ok, pure_eq_ok, Prod.mk.injEq] at h
    obtain ⟨_, _, _, _, rfl, _⟩ := h
    rfl
  · simp only [bind_eq_ok, pure_eq_ok, Prod.mk.injEq] at h
    obtain ⟨_, _, _, _, rfl, _⟩ := h
    rfl

theorem requireArray_eq_ok {message : String} {items : List Json}
    (h : requireArray value message = .ok items) : value.asArray?.getD [] = items := by
  rw [requireArray] at h
  split at h
  · next heq =>
      cases h
      rw [heq]
      rfl
  · cases h

theorem membership_length {negate : Bool} (h : membership negate value d = .ok (values, t)) :
    values.length = (value.asArray?.getD []).length := by
  simp only [membership, bind_eq_ok] at h
  obtain ⟨items, hitems, h⟩ := h
  rw [requireArray_eq_ok hitems]
  cases items with
  | nil =>
    cases h
    rfl
  | cons item items =>
    cases h
    rfl

theorem overItems_length {notArray empty : String} {cast : Template}
    {sql : List Template → Dialect → Except FraiseQLError Template}
    (h : overItems notArray empty cast sql value d = .ok (values, t)) :
    values.length = (value.asArray?.getD []).length := by
  simp only [overItems, bind_eq_ok] at h
  obtain ⟨items, hitems, h⟩ := h
  rw [requireArray_eq_ok hitems]
  cases items with
  | nil => cases h
  | cons item items =>
    simp only [isEmpty_cons, Bool.false_eq_true, if_false, bind_eq_ok, pure_eq_ok,
      Prod.mk.injEq] at h
    obtain ⟨_, _, rfl, _⟩ := h
    rfl

theorem generateExtendedSql_length {op : ExtendedOperator} (h : generateExtendedSql op d = .ok (values, t)) :
    values.length = bindCount (.extended op) value := by
  cases d with
  | postgres =>
    cases op with
    | emailDomainIn domains =>
      cases h
      exact length_map ..
    | other display => cases h
    | _ =>
      cases h
      rfl
  | _ => cases h

theorem conditionOf_length {op : WhereOperator} (h : conditionOf op value d = .ok (values, t)) :
    values.length = bindCount op value := by
  cases op with
  | eq | neq | gt | gte | lt | lte | like | ilike | nlike | nilike | lenEq | lenNeq | lenGt | lenGte | lenLt
  | lenLte =>
    cases h
    rfl
  | isIn | nin => exact membership_length h
  | isNull =>
    cases h
    rfl
  | contains | icontains | startswith | istartswith | endswith | iendswith => exact patternMatch_length h
  | regex | iregex | nregex | niregex => exact regexMatch_length h
  | isIPv4 | isIPv6 | isPrivate | isPublic | isLoopback =>
    simp only [conditionOf, map_eq_ok, Prod.mk.injEq] at h
    obtain ⟨_, _, rfl, _⟩ := h
    rfl
  | matchesAnyLquery | lca => exact overItems_length h
  | extended op => exact generateExtendedSql_length h
  | _ => exact binary_length h

end Lengths

theorem visitField_binds {g : Generator} {path : List String} {op : WhereOperator} {value : Json}
    {s s' : GenState} {c : Condition} (h : visitField g path op value s = .ok (c, s')) :
    Binds (replicate (bindCount op value) (isExtended op)) s s' c.bound := by
  obtain ⟨values, t, hcond, rfl, rfl⟩ := visitField_eq_ok h
  rw [← conditionOf_length hcond]
  cases hop : isExtended op with
  | false => exact pushAll_binds pushParam_binds values s
  | true => exact pushAll_binds pushExtended_binds values s

mutual

theorem conditions_binds {g : Generator} : ∀ (clause : WhereClause) {s s' : GenState}
    {f : Formula Condition}, conditions g clause s = .ok (f, s') → Binds (bindKinds clause) s s' (boundOf f)
  | .field path op value, s, s', f, h => by
    simp only [conditions, map_eq_ok, Prod.mk.injEq] at h
    obtain ⟨⟨c, _⟩, hvisit, rfl, rfl⟩ := h
    have hbinds := visitField_binds hvisit
    simpa [boundOf, Formula.leaves, bindKinds] using hbinds
  | .nativeField column pgCast op value, s, s', f, h => by
    simp only [conditions, map_eq_ok, Prod.mk.injEq] at h
    obtain ⟨⟨c, _⟩, hvisit, rfl, rfl⟩ := h
    obtain ⟨comparison, _, rfl, rfl⟩ := visitNativeField_eq_ok hvisit
    exact pushParam_binds s value
  | .and clauses, s, s', f, h | .or clauses, s, s', f, h => by
    simp only [conditions, map_eq_ok, Prod.mk.injEq] at h
    obtain ⟨⟨fs, _⟩, hall, rfl, rfl⟩ := h
    exact conditionsAll_binds clauses hall
  | .not clause, s, s', f, h => by
    simp only [conditions, map_eq_ok, Prod.mk.injEq] at h
    obtain ⟨⟨f', _⟩, hclause, rfl, rfl⟩ := h
    have hinner : Binds (bindKinds clause) s _ (boundOf f') := conditions_binds clause hclause
    exact hinner

theorem conditionsAll_binds {g : Generator} : ∀ (clauses : List WhereClause) {s s' : GenState}
    {fs : List (Formula Condition)}, conditionsAll g clauses s = .ok (fs, s') →
      Binds (bindKindsAll clauses) s s' ((leavesAll fs).flatMap bound)
  | [], s, s', fs, h => by
    cases h
    exact Binds.nil s
  | clause :: clauses, s, s', fs, h => by
    simp only [conditionsAll, bind_eq_ok, pure_eq_ok, Prod.mk.injEq] at h
    obtain ⟨⟨f, _⟩, hclause, ⟨fs', _⟩, hclauses, rfl, rfl⟩ := h
    rw [leavesAll, flatMap_append]
    exact (conditions_binds clause hclause).append (conditionsAll_binds clauses hclauses)

end

/-! ### Placeholders of the text -/

/-- The placeholders of a token sequence. -/
def placeholdersOf (ts : List Token) : List Token := ts.filter Token.isPlaceholder

theorem placeholdersOf_eq_nil {ts : List Token} (h : (ts.all fun tok => !tok.isPlaceholder) = true) :
    placeholdersOf ts = [] := by
  rw [placeholdersOf, filter_eq_nil_iff]
  intro tok htok
  have hmute := all_eq_true.mp h tok htok
  simpa using hmute

theorem placeholdersOf_append (a b : List Token) :
    placeholdersOf (a ++ b) = placeholdersOf a ++ placeholdersOf b := filter_append ..

theorem postgresPathTokens_mute (path : List String) :
    ((postgresPathTokens path).all fun tok => !tok.isPlaceholder) = true := by
  induction path with
  | nil => rfl
  | cons segment path ih =>
    cases path with
    | nil => rfl
    | cons next path => exact ih

theorem subjectTokens_mute (g : Generator) (b : Bool) (subject : Subject) :
    ((subjectTokens g b subject).all fun tok => !tok.isPlaceholder) = true := by
  cases subject with
  | column name => rfl
  | field path =>
    rw [subjectTokens]
    split_ifs
    · rfl
    · cases g.dialect with
      | postgres => exact postgresPathTokens_mute path
      | mysql => cases b <;> rfl
      | sqlite => rfl
      | sqlserver => rfl

def placeholderToken (d : Dialect) (bound : Nat × Json) : Token := .placeholder (placeholder bound.1 d)

theorem filterMap_getElem?_range {α : Type} (xs : List α) :
    (range xs.length).filterMap (fun i => xs[i]?) = xs := by
  induction xs with
  | nil => rfl
  | cons x xs ih =>
    rw [length_cons, range_succ_eq_map, filterMap_cons, filterMap_map]
    exact congrArg (x :: ·) ih

/-- The placeholders of a condition are those of its values, in order. -/
theorem Condition.WellFormed.placeholders_eq {g : Generator} {b : Bool} {c : Condition}
    (hc : c.WellFormed g b) :
    placeholdersOf (c.sql.flatMap (Piece.tokens g b)) = c.bound.map (placeholderToken g.dialect) := by
  obtain ⟨_, _, hholes, hmute, _⟩ := wellFormed_iff.mp hc.template
  have hfrags : ∀ t : Template, (∀ f ∈ t, f ∈ c.template) → mute (rules b g.dialect) t = true →
      placeholdersOf (t.flatMap fun f => (c.piece f).tokens g b) =
        ((holes t).filterMap fun i => c.bound[i]?).map (placeholderToken g.dialect) := by
    intro t
    induction t with
    | nil => exact fun _ _ => rfl
    | cons f t ih =>
      intro hmem hmute
      rw [mute, flatMap_cons, all_append, Bool.and_eq_true] at hmute
      have hrest := ih (fun f hf => hmem f (mem_cons_of_mem _ hf)) hmute.2
      rw [flatMap_cons, placeholdersOf_append, hrest]
      cases f with
      | text cs =>
        have hnil : placeholdersOf ((c.piece (.text cs)).tokens g b) = [] := placeholdersOf_eq_nil hmute.1
        rw [hnil]
        rfl
      | hole h =>
        cases h with
        | field =>
          have hnil : placeholdersOf ((c.piece (.hole .field)).tokens g b) = [] :=
            placeholdersOf_eq_nil (subjectTokens_mute g b c.subject)
          rw [hnil]
          rfl
        | param i =>
          obtain ⟨n, v, hbound⟩ := hc.bound_of_hole (hmem _ (mem_cons_self ..))
          have hholes : holes (.hole (.param i) :: t) = i :: holes t := rfl
          rw [piece, hbound, hholes, filterMap_cons, hbound]
          rfl
  rw [sql, flatMap_map, hfrags c.template (fun _ hf => hf) hmute, hholes,
    filterMap_getElem?_range]

section Layout

variable {g : Generator} {b : Bool}

theorem placeholdersOf_join {sep : List Char} (hsep : placeholdersOf (lex (rules b g.dialect) sep) = [])
    (parts : List Sql) : placeholdersOf ((joinSql sep parts).flatMap (Piece.tokens g b)) =
      parts.flatMap fun part => placeholdersOf (part.flatMap (Piece.tokens g b)) := by
  induction parts with
  | nil => rfl
  | cons part parts ih =>
    cases parts with
    | nil => simp [joinSql, joined]
    | cons next parts =>
      rw [joinSql] at ih ⊢
      rw [joined_cons_cons, flatMap_append, placeholdersOf_append, flatMap_cons,
        placeholdersOf_append, Piece.tokens, hsep, ih]
      rfl

theorem placeholdersOf_wrap {start stop : List Char}
    (hstart : placeholdersOf (lex (rules b g.dialect) start) = [])
    (hstop : placeholdersOf (lex (rules b g.dialect) stop) = []) (sql : Sql) :
    placeholdersOf ((Piece.text start :: sql ++ [Piece.text stop]).flatMap (Piece.tokens g b)) =
      placeholdersOf (sql.flatMap (Piece.tokens g b)) := by
  rw [cons_append, flatMap_cons, flatMap_append, placeholdersOf_append, placeholdersOf_append,
    Piece.tokens, hstart, flatMap_singleton, Piece.tokens, hstop, append_nil, nil_append]

theorem constant_placeholders : placeholdersOf ((constantSql (alwaysTrue g.dialect)).flatMap (Piece.tokens g b)) = [] ∧
    placeholdersOf ((constantSql (alwaysFalse g.dialect)).flatMap (Piece.tokens g b)) = [] := by
  obtain ⟨d, indexed⟩ := g
  cases d <;> cases b <;> exact ⟨rfl, rfl⟩

theorem glue_placeholders {cs : List Char}
    (h : cs ∈ [lit "(", lit " AND ", lit " OR ", lit ")", lit "NOT ("]) :
    placeholdersOf (lex (rules b g.dialect) cs) = [] := by
  have hall := of_modes (P := fun r _ => [lit "(", lit " AND ", lit " OR ", lit ")", lit "NOT ("].all
    (fun cs => (lex r cs).all fun tok => !tok.isPlaceholder)) (by decide +kernel) b g.dialect
  exact placeholdersOf_eq_nil (all_eq_true.mp hall cs h)

mutual

/-- The placeholders of a formula's text are those of its bound values, in order. -/
theorem layout_placeholders : ∀ (f : Formula Condition), (∀ c ∈ f.leaves, c.WellFormed g b) →
    placeholdersOf ((layout g.dialect f).flatMap (Piece.tokens g b)) =
      (f.leaves.flatMap bound).map (placeholderToken g.dialect)
  | .leaf c, h => by
    rw [layout, (h c (mem_singleton_self c)).placeholders_eq, Formula.leaves, flatMap_singleton]
  | .and fs, h => by
    rw [layout, Formula.leaves]
    split_ifs with hempty
    · obtain rfl := isEmpty_iff.mp hempty
      exact constant_placeholders.1
    · rw [placeholdersOf_wrap (glue_placeholders (by simp)) (glue_placeholders (by simp)),
        placeholdersOf_join (glue_placeholders (by simp))]
      exact layoutAll_placeholders fs h
  | .or fs, h => by
    rw [layout, Formula.leaves]
    split_ifs with hempty
    · obtain rfl := isEmpty_iff.mp hempty
      exact constant_placeholders.2
    · rw [placeholdersOf_wrap (glue_placeholders (by simp)) (glue_placeholders (by simp)),
        placeholdersOf_join (glue_placeholders (by simp))]
      exact layoutAll_placeholders fs h
  | .not f, h => by
    rw [layout, Formula.leaves, placeholdersOf_wrap (glue_placeholders (by simp)) (glue_placeholders (by simp))]
    exact layout_placeholders f h

theorem layoutAll_placeholders : ∀ (fs : List (Formula Condition)), (∀ c ∈ leavesAll fs, c.WellFormed g b) →
    ((layoutAll g.dialect fs).flatMap fun part => placeholdersOf (part.flatMap (Piece.tokens g b))) =
      ((leavesAll fs).flatMap bound).map (placeholderToken g.dialect)
  | [], _ => rfl
  | f :: fs, h => by
    rw [layoutAll, leavesAll, flatMap_cons, flatMap_append, map_append,
      layout_placeholders f fun c hc => h c (mem_append_left _ hc),
      layoutAll_placeholders fs fun c hc => h c (mem_append_right _ hc)]

end

end Layout

/-! ### Alignment -/

/-- The placeholders of the SQL are numbered from the offset on, without gaps and in order, and each is
rendered for the value that is bound under its number. The text is read in every mode of the database in
which its path literals mean what was written. -/
structure Aligned (g : Generator) (clause : WhereClause) (k : Nat) (sql : String) (params : List Json) :
    Prop where
  text : ∀ b, PlainPaths g b clause → placeholdersOf (lex (rules b g.dialect) sql.toList) =
    (List.range' (k + 1) params.length).map fun n => .placeholder (placeholder n g.dialect)
  values : ∃ f s, conditions g clause ⟨k, []⟩ = .ok (f, s) ∧
    sql = String.ofList (renderSql g (layout g.dialect f)) ∧
      boundOf f = (List.range' (k + 1) params.length).zip params

/-- The generator keeps placeholders and values aligned exactly when no ordinary value is bound after an
extended one and extended values are bound at offset zero only. -/
theorem generateWithParamOffset_aligned_iff {g : Generator} {clause : WhereClause} {k : Nat} {sql : String}
    {params : List Json} (h : generateWithParamOffset g clause k = .ok (sql, params)) :
    Aligned g clause k sql params ↔
      (bindKinds clause).Pairwise (fun a b => a = true → b = true) ∧ (true ∈ bindKinds clause → k = 0) := by
  obtain ⟨f, s, hconditions, rfl, rfl⟩ := generate_eq_ok h
  have hbinds := conditions_binds clause hconditions
  have hparams : s.params = (boundOf f).map Prod.snd := hbinds.params
  have hlength : s.params.length = (bindKinds clause).length := by
    have hmap := congrArg length hbinds.numbers
    rw [length_map, numbers_length] at hmap
    rw [hparams, length_map, hmap]
  rw [← numbers_eq_range'_iff (bindKinds clause) k 0]
  have hnumbers : (boundOf f).map Prod.fst = numbers (bindKinds clause) (k + 0) 0 := hbinds.numbers
  constructor
  · rintro ⟨_, f', s', hconditions', _, hzip⟩
    obtain ⟨rfl, rfl⟩ : f' = f ∧ s' = s := by
      rw [hconditions] at hconditions'
      cases hconditions'
      exact ⟨rfl, rfl⟩
    rw [← hnumbers, hzip, map_fst_zip (by simp), hlength]
  · intro hrange
    rw [hrange, ← hlength] at hnumbers
    have hzip : boundOf f = (range' (k + 1) s.params.length).zip s.params := by
      rw [← zip_unzip (boundOf f), unzip_eq_map, hnumbers, ← hparams]
    refine ⟨?_, f, s, hconditions, rfl, hzip⟩
    intro b hplain
    rw [String.toList_ofList, lex_generated hconditions hplain,
      layout_placeholders f (conditions_wellFormed clause hconditions hplain)]
    have hmap : (f.leaves.flatMap bound).map (placeholderToken g.dialect) =
        ((boundOf f).map Prod.fst).map fun n => Token.placeholder (placeholder n g.dialect) := by
      rw [map_map]
      rfl
    rw [hmap, hnumbers]

/-- Two ordinary conditions behind an offset. -/
theorem ordinary_conditions_aligned : ∃ sql params,
    generateWithParamOffset (new .postgres) (.and [.field ["age"] .gt (.ofNat 18),
      .field ["name"] .eq (.str "Ada")]) 2 = .ok (sql, params) ∧
    Aligned (new .postgres) (.and [.field ["age"] .gt (.ofNat 18), .field ["name"] .eq (.str "Ada")]) 2
      sql params :=
  ⟨_, _, rfl, (generateWithParamOffset_aligned_iff rfl).mpr ⟨by decide, by decide⟩⟩

/-- An ordinary condition after an extended one takes the number of the extended one's placeholder. -/
theorem extended_condition_misaligned : ∃ sql params,
    generateWithParamOffset (new .postgres) (.and [.field ["email"] (.extended (.emailDomainEq "example.com")) .null,
      .field ["name"] .eq (.str "Ada")]) 0 = .ok (sql, params) ∧
    ¬Aligned (new .postgres) (.and [.field ["email"] (.extended (.emailDomainEq "example.com")) .null,
      .field ["name"] .eq (.str "Ada")]) 0 sql params := by
  refine ⟨_, _, rfl, ?_⟩
  rintro ⟨_, f, s, hconditions, _, hbound⟩
  cases hconditions
  revert hbound
  decide

end FraiseQL.WhereGenerator
