import Mathlib.Data.List.Forall2
import FraiseQL.WhereGeneratorLexing

/-! The generated SQL read as a condition. Conjunctions and disjunctions are parenthesised, but the members of
a conjunction are put side by side as they are; a member whose own SQL has an OR outside all parentheses is
then torn apart, since AND binds tighter. The loopback check of PostgreSQL is the only such member. -/

namespace FraiseQL.WhereGenerator

open SqlLex SqlBoolean Dialect Outcome List Prod

/-! ### The meaning of a formula -/

mutual

def Formula.eval {α : Type} (v : α → Bool) : Formula α → Bool
  | .leaf a => v a
  | .and fs => evalAll v fs
  | .or fs => evalAny v fs
  | .not f => !f.eval v

def evalAll {α : Type} (v : α → Bool) : List (Formula α) → Bool
  | [] => true
  | f :: fs => f.eval v && evalAll v fs

def evalAny {α : Type} (v : α → Bool) : List (Formula α) → Bool
  | [] => false
  | f :: fs => f.eval v || evalAny v fs

end

/-- The tokens of a formula's SQL. -/
def formulaTokens (g : Generator) (b : Bool) (f : Formula Condition) : List Token :=
  (layout g.dialect f).flatMap (Piece.tokens g b)

mutual

/-- The formula with the tokens of each condition, placed where they stand in the text that begins at `n`. -/
def placedLeaves (g : Generator) (b : Bool) (n : Nat) : Formula Condition → Formula (List Placed)
  | .leaf c => .leaf ((c.sql.flatMap (Piece.tokens g b)).zipIdx n)
  | .and fs => .and (placedAll g b (n + 1) fs)
  | .or fs => .or (placedAll g b (n + 1) fs)
  | .not f => .not (placedLeaves g b (n + 2) f)

def placedAll (g : Generator) (b : Bool) (n : Nat) : List (Formula Condition) → List (Formula (List Placed))
  | [] => []
  | f :: fs => placedLeaves g b n f :: placedAll g b (n + (formulaTokens g b f).length + 1) fs

end

/-- What the SQL of a condition means by itself. -/
def leafValue (v : List Placed → Bool) (ts : List Placed) : Bool := (read v ts).getD false

/-! ### Members of a conjunction -/

def Formula.member {α : Type} : Formula α → List α
  | .leaf a => [a]
  | _ => []

mutual

/-- The conditions that are put side by side with others under AND. -/
def Formula.exposed {α : Type} : Formula α → List α
  | .leaf _ => []
  | .and fs => (if 2 ≤ fs.length then fs.flatMap Formula.member else []) ++ exposedAll fs
  | .or fs => exposedAll fs
  | .not f => f.exposed

def exposedAll {α : Type} : List (Formula α) → List α
  | [] => []
  | f :: fs => f.exposed ++ exposedAll fs

end

/-- No OR outside all parentheses. -/
def Calm (g : Generator) (b : Bool) (c : Condition) : Prop :=
  ∀ t ∈ outer 0 (c.sql.flatMap (Piece.tokens g b)), isOr t = false

/-! ### Reading a formula -/

section Reading

variable {g : Generator} {b : Bool}

theorem postgresPathTokens_plain (path : List String) :
    ∀ t ∈ postgresPathTokens path, isParen t = false ∧ isOr t = false := by
  induction path with
  | nil => exact List.forall_mem_nil _
  | cons segment path ih =>
    cases path with
    | nil =>
      intro t ht
      simp only [postgresPathTokens, mem_cons, not_mem_nil, or_false] at ht
      rcases ht with rfl | rfl <;> exact ⟨rfl, rfl⟩
    | cons next path =>
      intro t ht
      rw [postgresPathTokens, mem_cons, mem_cons] at ht
      · rcases ht with rfl | rfl | ht
        · exact ⟨rfl, rfl⟩
        · exact ⟨rfl, rfl⟩
        · exact ih t ht
      · exact List.cons_ne_nil _ _

theorem jsonExtractTokens_reads (b : Bool) (path : List String) (d : Dialect) :
    depth (jsonExtractTokens b path d) 0 = some 0 ∧
      ((jsonExtractTokens b path d).all fun t => !isOr t) = true := by
  cases d with
  | postgres =>
    have hplain : ∀ t ∈ jsonExtractTokens b path .postgres, isParen t = false ∧ isOr t = false := by
      intro t ht
      rcases mem_cons.mp ht with rfl | ht
      · exact ⟨rfl, rfl⟩
      · exact postgresPathTokens_plain path t ht
    refine ⟨depth_of_noParen (fun t ht => (hplain t ht).1) 0, all_eq_true.mpr ?_⟩
    intro t ht
    rw [(hplain t ht).2]
    rfl
  | mysql => cases b <;> exact ⟨rfl, rfl⟩
  | sqlite => exact ⟨rfl, rfl⟩
  | sqlserver => exact ⟨rfl, rfl⟩

theorem subjectTokens_reads (g : Generator) (b : Bool) (s : Subject) :
    depth (subjectTokens g b s) 0 = some 0 ∧ ((subjectTokens g b s).all fun t => !isOr t) = true := by
  cases s with
  | column name => exact ⟨rfl, rfl⟩
  | field path =>
    rw [subjectTokens]
    split_ifs
    · exact ⟨rfl, rfl⟩
    · exact jsonExtractTokens_reads b path g.dialect

/-- The tokens in a hole are balanced, and none is an OR. -/
theorem piece_reads (c : Condition) (h : Hole) :
    depth ((c.piece (.hole h)).tokens g b) 0 = some 0 ∧
      (((c.piece (.hole h)).tokens g b).all fun t => !isOr t) = true := by
  cases h with
  | field => exact subjectTokens_reads g b c.subject
  | param i =>
    rw [Condition.piece]
    cases c.bound[i]? with
    | none => exact ⟨rfl, rfl⟩
    | some bound => exact ⟨rfl, rfl⟩

theorem frag_reads (c : Condition) (f : Frag) :
    (c.piece f).tokens g b = fragTokens (rules b g.dialect) f ∨
      (fragTokens (rules b g.dialect) f = [] ∧ depth ((c.piece f).tokens g b) 0 = some 0) := by
  cases f with
  | text cs => exact .inl rfl
  | hole h => exact .inr ⟨rfl, (piece_reads c h).1⟩

variable {c : Condition}

theorem Condition.WellFormed.balanced (hc : c.WellFormed g b) :
    depth (c.sql.flatMap (Piece.tokens g b)) 0 = some 0 := by
  obtain ⟨_, _, _, _, hclosed⟩ := wellFormed_iff.mp hc.template
  rw [Condition.sql, flatMap_map, depth_flatMap fun f _ => frag_reads c f]
  exact hclosed

/-- A condition is calm when the text of its template is. -/
theorem Condition.WellFormed.calm_iff (hc : c.WellFormed g b) : Calm g b c ↔
    ∀ t ∈ outer 0 (c.template.flatMap (fragTokens (rules b g.dialect))), isOr t = false := by
  obtain ⟨_, _, _, _, hclosed⟩ := wellFormed_iff.mp hc.template
  rw [Calm, Condition.sql, flatMap_map]
  constructor
  · intro h t ht
    exact h t ((mem_outer_flatMap (fun f _ => frag_reads c f) hclosed t).1 ht)
  · intro h t ht
    rcases (mem_outer_flatMap (fun f _ => frag_reads c f) hclosed t).2 ht with ht | ⟨f, _, hnil, ht⟩
    · exact h t ht
    · cases f with
      | text cs =>
        rw [show (c.piece (.text cs)).tokens g b = [] from hnil] at ht
        cases ht
      | hole hole =>
        have hnot := all_eq_true.mp (piece_reads (g := g) (b := b) c hole).2 t (mem_of_mem_outer ht)
        simpa using hnot

variable {v : List Placed → Bool}

theorem Condition.WellFormed.readsAs (hc : c.WellFormed g b) (n : Nat) {calm : Bool}
    (hcalm : calm = true → Calm g b c) :
    ReadsAs v ((c.sql.flatMap (Piece.tokens g b)).zipIdx n)
      (leafValue v ((c.sql.flatMap (Piece.tokens g b)).zipIdx n)) calm := by
  have hfst : ((c.sql.flatMap (Piece.tokens g b)).zipIdx n).map fst = c.sql.flatMap (Piece.tokens g b) :=
    zipIdx_map_fst ..
  have hbalanced : depth (((c.sql.flatMap (Piece.tokens g b)).zipIdx n).map fst) 0 = some 0 := by
    rw [hfst]
    exact hc.balanced
  obtain ⟨us, hus⟩ := reads_of_depth hbalanced
  refine ⟨us, hus, ?_, ?_⟩
  · rw [leafValue, SqlBoolean.read, hus.parse_eq]
    rfl
  · intro h t ht
    rw [← hus.outer_eq, hfst] at ht
    exact hcalm h t ht

/-- A member of a conjunction that may stand beside others. -/
def memberCalm (g : Generator) (b : Bool) : Formula Condition → Prop
  | .leaf c => Calm g b c
  | _ => True

theorem glue_tokens (b : Bool) (d : Dialect) : lex (rules b d) (lit "(") = [.symbol '('] ∧
    lex (rules b d) (lit ")") = [.symbol ')'] ∧ lex (rules b d) (lit " AND ") = [.word ['A', 'N', 'D']] ∧
    lex (rules b d) (lit " OR ") = [.word ['O', 'R']] ∧
    lex (rules b d) (lit "NOT (") = [.word ['N', 'O', 'T'], .symbol '('] := by
  cases d <;> cases b <;> exact ⟨rfl, rfl, rfl, rfl, rfl⟩

theorem constantSql_readsAs (n : Nat) :
    ReadsAs v (((constantSql (alwaysTrue g.dialect)).flatMap (Piece.tokens g b)).zipIdx n) true true ∧
    ReadsAs v (((constantSql (alwaysFalse g.dialect)).flatMap (Piece.tokens g b)).zipIdx n) false true := by
  obtain ⟨d, indexed⟩ := g
  cases d <;> cases b <;> exact ⟨readsAs_constant rfl rfl, readsAs_constant rfl rfl⟩

/-- The tokens of the joined members. -/
def joinedTokens (g : Generator) (b : Bool) (sep : List Char) (fs : List (Formula Condition)) : List Token :=
  (joinSql sep (layoutAll g.dialect fs)).flatMap (Piece.tokens g b)

theorem joinedTokens_cons_cons {sep : List Char} {t : Token} (hsep : lex (rules b g.dialect) sep = [t])
    (f f' : Formula Condition) (fs : List (Formula Condition)) : joinedTokens g b sep (f :: f' :: fs) =
      formulaTokens g b f ++ t :: joinedTokens g b sep (f' :: fs) := by
  rw [joinedTokens, layoutAll, layoutAll, joinSql, joined_cons_cons, flatMap_append, flatMap_cons,
    Piece.tokens, hsep]
  rfl

theorem wrapped_zipIdx {start : List Char} {ts : List Token} (hstart : lex (rules b g.dialect) start = ts)
    (sql : Sql) (n : Nat) :
    ((Piece.text start :: sql ++ [Piece.text (lit ")")]).flatMap (Piece.tokens g b)).zipIdx n =
      ts.zipIdx n ++ ((sql.flatMap (Piece.tokens g b)).zipIdx (n + ts.length) ++
        [(.symbol ')', n + ts.length + (sql.flatMap (Piece.tokens g b)).length)]) := by
  have hstop : lex (rules b g.dialect) (lit ")") = [.symbol ')'] := (glue_tokens b g.dialect).2.1
  rw [cons_append, flatMap_cons, flatMap_append, Piece.tokens, hstart, flatMap_singleton,
    Piece.tokens, hstop, zipIdx_append, zipIdx_append]
  rfl

theorem paren_readsAs {sql : Sql} {n : Nat} {x c : Bool}
    (h : ReadsAs v ((sql.flatMap (Piece.tokens g b)).zipIdx (n + 1)) x c) :
    ReadsAs v (((Piece.text (lit "(") :: sql ++ [Piece.text (lit ")")]).flatMap (Piece.tokens g b)).zipIdx n) x
      true := by
  rw [wrapped_zipIdx (glue_tokens b g.dialect).1]
  exact h.group n _

mutual

/-- A formula whose exposed conditions are calm is read as it is meant. -/
theorem layout_readsAs : ∀ (f : Formula Condition) (n : Nat), (∀ c ∈ f.leaves, c.WellFormed g b) →
    (∀ c ∈ f.exposed, Calm g b c) → ∀ calm : Bool, (calm = true → memberCalm g b f) →
    ReadsAs v ((formulaTokens g b f).zipIdx n) ((placedLeaves g b n f).eval (leafValue v)) calm
  | .leaf c, n, hleaves, _, calm, hcalm => by
    exact (hleaves c (mem_singleton_self c)).readsAs n hcalm
  | .and [], n, _, _, calm, _ => (constantSql_readsAs n).1.weaken
  | .and [f], n, hleaves, hexposed, calm, _ => by
    have hmember := layout_readsAs f (n + 1) (fun c hc => hleaves c (mem_append_left _ hc))
      (fun c hc => hexposed c (mem_append_right _ (mem_append_left _ hc))) false nofun
    have hvalue : (placedLeaves g b n (.and [f])).eval (leafValue v) =
        (placedLeaves g b (n + 1) f).eval (leafValue v) := Bool.and_true _
    rw [hvalue]
    exact (paren_readsAs hmember).weaken
  | .and (f :: f' :: fs), n, hleaves, hexposed, calm, _ => by
    have hmembers : ∀ m ∈ f :: f' :: fs, memberCalm g b m := by
      intro m hm
      cases m with
      | leaf c =>
        apply hexposed c
        rw [Formula.exposed, if_pos (by simp)]
        exact mem_append_left _ (mem_flatMap.mpr ⟨_, hm, mem_singleton_self c⟩)
      | _ => exact trivial
    have hjoined := layoutAll_readsAs true (f :: f' :: fs) (n + 1) nofun hleaves
      (fun c hc => hexposed c (mem_append_right _ hc)) fun _ => hmembers
    exact (paren_readsAs hjoined).weaken
  | .or [], n, _, _, calm, _ => (constantSql_readsAs n).2.weaken
  | .or (f :: fs), n, hleaves, hexposed, calm, _ => by
    have hjoined := layoutAll_readsAs false (f :: fs) (n + 1) nofun hleaves hexposed nofun
    exact (paren_readsAs hjoined).weaken
  | .not f, n, hleaves, hexposed, calm, _ => by
    have hinner := layout_readsAs f (n + 2) hleaves hexposed false nofun
    rw [formulaTokens, layout, wrapped_zipIdx (glue_tokens b g.dialect).2.2.2.2]
    exact (hinner.not rfl n (n + 1) _).weaken

theorem layoutAll_readsAs : ∀ (conj : Bool) (fs : List (Formula Condition)) (n : Nat), fs ≠ [] →
    (∀ c ∈ leavesAll fs, c.WellFormed g b) → (∀ c ∈ exposedAll fs, Calm g b c) →
    (conj = true → ∀ f ∈ fs, memberCalm g b f) →
    ReadsAs v ((joinedTokens g b (cond conj (lit " AND ") (lit " OR ")) fs).zipIdx n)
      (cond conj evalAll evalAny (leafValue v) (placedAll g b n fs)) conj
  | _, [], n, hne, _, _, _ => absurd rfl hne
  | conj, [f], n, _, hleaves, hexposed, hcalm => by
    have hmember := layout_readsAs f n (fun c hc => hleaves c (mem_append_left _ hc))
      (fun c hc => hexposed c (mem_append_left _ hc)) conj fun h => hcalm h f (mem_singleton_self f)
    have hvalue : cond conj evalAll evalAny (leafValue v) (placedAll g b n [f]) =
        (placedLeaves g b n f).eval (leafValue v) := by
      cases conj with
      | true => exact Bool.and_true _
      | false => exact Bool.or_false _
    rw [hvalue]
    exact hmember
  | conj, f :: f' :: fs, n, _, hleaves, hexposed, hcalm => by
    have hmember := layout_readsAs f n (fun c hc => hleaves c (mem_append_left _ hc))
      (fun c hc => hexposed c (mem_append_left _ hc)) conj fun h => hcalm h f (mem_cons_self ..)
    have hrest := layoutAll_readsAs conj (f' :: fs) (n + (formulaTokens g b f).length + 1)
      nofun (fun c hc => hleaves c (mem_append_right _ hc))
      (fun c hc => hexposed c (mem_append_right _ hc)) fun h m hm => hcalm h m (mem_cons_of_mem _ hm)
    cases conj with
    | true =>
      rw [cond_true, joinedTokens_cons_cons (glue_tokens b g.dialect).2.2.1, zipIdx_append, zipIdx_cons]
      exact hmember.and hrest rfl _
    | false =>
      rw [cond_false, joinedTokens_cons_cons (glue_tokens b g.dialect).2.2.2.1, zipIdx_append, zipIdx_cons]
      exact hmember.or hrest rfl _

end

end Reading

/-! ### Which conditions are exposed -/

def memberOperator : WhereClause → List WhereOperator
  | .field _ op _ => [op]
  | .nativeField _ _ op _ => [op]
  | _ => []

mutual

/-- The operators of the conditions that are members of a conjunction of two or more. -/
def exposedOperators : WhereClause → List WhereOperator
  | .field _ _ _ => []
  | .and clauses =>
    (if 2 ≤ clauses.length then clauses.flatMap memberOperator else []) ++ exposedOperatorsAll clauses
  | .or clauses => exposedOperatorsAll clauses
  | .not clause => exposedOperators clause
  | .nativeField _ _ _ _ => []

def exposedOperatorsAll : List WhereClause → List WhereOperator
  | [] => []
  | clause :: clauses => exposedOperators clause ++ exposedOperatorsAll clauses

end

section Exposed

variable {g : Generator} {b : Bool}

/-- The condition of an operator, calm unless the operator is the loopback check. -/
def CalmUnlessLoopback (g : Generator) (b : Bool) (c : Condition) (op : WhereOperator) : Prop :=
  Calm g b c ↔ op ≠ .isLoopback

variable {s s' : GenState}

theorem visitField_calm {path : List String} {op : WhereOperator} {value : Json}
    {c : Condition} (h : visitField g path op value s = .ok (c, s')) (hc : c.WellFormed g b) :
    CalmUnlessLoopback g b c op := by
  obtain ⟨values, t, hcond, rfl, _⟩ := visitField_eq_ok h
  rw [CalmUnlessLoopback, hc.calm_iff]
  constructor
  · rintro hcalm rfl
    obtain ⟨tok, htok, hor⟩ := any_eq_true.mp (isLoopback_wellFormed b g.dialect value hcond).2
    rw [hcalm tok htok] at hor
    cases hor
  · intro hop tok htok
    have hquiet := (checked_iff.mp (conditionOf_sound b g.dialect value hop values t hcond)).2
    have hinner := all_eq_true.mp hquiet tok htok
    rw [isInner, Bool.and_eq_true, Bool.not_eq_true'] at hinner
    exact hinner.1

theorem visitNativeField_calm {column : String} {pgCast : PgCast} {op : WhereOperator} {value : Json}
    {c : Condition} (h : visitNativeField g column pgCast op value s = .ok (c, s'))
    (hc : c.WellFormed g b) : CalmUnlessLoopback g b c op := by
  rw [CalmUnlessLoopback, hc.calm_iff]
  constructor
  · rintro _ rfl
    cases h
  · intro _ tok htok
    obtain ⟨comparison, hcomparison, rfl, _⟩ := visitNativeField_eq_ok h
    have hquiet := (checked_iff.mp (native_checked b g.dialect pgCast hcomparison)).2
    have hinner := all_eq_true.mp hquiet tok htok
    rw [isInner, Bool.and_eq_true, Bool.not_eq_true'] at hinner
    exact hinner.1

theorem conditions_member {clause : WhereClause} {f : Formula Condition}
    (h : conditions g clause s = .ok (f, s')) (hleaves : ∀ c ∈ f.leaves, c.WellFormed g b) :
    List.Forall₂ (CalmUnlessLoopback g b) f.member (memberOperator clause) := by
  cases clause with
  | field path op value =>
    simp only [conditions, map_eq_ok, mk.injEq] at h
    obtain ⟨⟨c, _⟩, hvisit, rfl, _⟩ := h
    exact .cons (visitField_calm hvisit (hleaves c (mem_singleton_self c))) .nil
  | nativeField column pgCast op value =>
    simp only [conditions, map_eq_ok, mk.injEq] at h
    obtain ⟨⟨c, _⟩, hvisit, rfl, _⟩ := h
    exact .cons (visitNativeField_calm hvisit (hleaves c (mem_singleton_self c))) .nil
  | and clauses | or clauses | not clause =>
    simp only [conditions, map_eq_ok, mk.injEq] at h
    obtain ⟨_, _, rfl, _⟩ := h
    exact .nil

theorem conditionsAll_members (clauses : List WhereClause) {fs : List (Formula Condition)}
    (h : conditionsAll g clauses s = .ok (fs, s')) (hleaves : ∀ c ∈ leavesAll fs, c.WellFormed g b) :
    fs.length = clauses.length ∧ List.Forall₂ (CalmUnlessLoopback g b) (fs.flatMap Formula.member)
      (clauses.flatMap memberOperator) := by
  induction clauses generalizing s fs with
  | nil =>
    cases h
    exact ⟨rfl, .nil⟩
  | cons clause clauses ih =>
    simp only [conditionsAll, bind_eq_ok, pure_eq_ok, mk.injEq] at h
    obtain ⟨⟨f, _⟩, hclause, ⟨fs', _⟩, hclauses, rfl, rfl⟩ := h
    obtain ⟨hlength, hmembers⟩ := ih hclauses fun c hc => hleaves c (mem_append_right _ hc)
    have hmember := conditions_member hclause fun c hc => hleaves c (mem_append_left _ hc)
    refine ⟨congrArg (· + 1) hlength, ?_⟩
    rw [flatMap_cons, flatMap_cons]
    exact rel_append hmember hmembers

mutual

theorem conditions_exposed : ∀ (clause : WhereClause) {s s' : GenState} {f : Formula Condition},
    conditions g clause s = .ok (f, s') → (∀ c ∈ f.leaves, c.WellFormed g b) →
      List.Forall₂ (CalmUnlessLoopback g b) f.exposed (exposedOperators clause)
  | .field path op value, s, s', f, h, _ | .nativeField column pgCast op value, s, s', f, h, _ => by
    simp only [conditions, map_eq_ok, mk.injEq] at h
    obtain ⟨_, _, rfl, _⟩ := h
    exact .nil
  | .and clauses, s, s', f, h, hleaves => by
    simp only [conditions, map_eq_ok, mk.injEq] at h
    obtain ⟨⟨fs, _⟩, hall, rfl, _⟩ := h
    obtain ⟨hlength, hmembers⟩ := conditionsAll_members clauses hall hleaves
    have hrest := conditionsAll_exposed clauses hall hleaves
    show List.Forall₂ _ ((if 2 ≤ fs.length then fs.flatMap Formula.member else []) ++ exposedAll fs) _
    rw [hlength, exposedOperators]
    split_ifs
    · exact rel_append hmembers hrest
    · exact hrest
  | .or clauses, s, s', f, h, hleaves => by
    simp only [conditions, map_eq_ok, mk.injEq] at h
    obtain ⟨⟨fs, _⟩, hall, rfl, _⟩ := h
    exact conditionsAll_exposed clauses hall hleaves
  | .not clause, s, s', f, h, hleaves => by
    simp only [conditions, map_eq_ok, mk.injEq] at h
    obtain ⟨⟨f', _⟩, hclause, rfl, _⟩ := h
    have hinner : List.Forall₂ _ f'.exposed _ := conditions_exposed clause hclause hleaves
    exact hinner

theorem conditionsAll_exposed : ∀ (clauses : List WhereClause) {s s' : GenState}
    {fs : List (Formula Condition)}, conditionsAll g clauses s = .ok (fs, s') →
      (∀ c ∈ leavesAll fs, c.WellFormed g b) →
      List.Forall₂ (CalmUnlessLoopback g b) (exposedAll fs) (exposedOperatorsAll clauses)
  | [], s, s', fs, h, _ => by
    cases h
    exact .nil
  | clause :: clauses, s, s', fs, h, hleaves => by
    simp only [conditionsAll, bind_eq_ok, pure_eq_ok, mk.injEq] at h
    obtain ⟨⟨f, _⟩, hclause, ⟨fs', _⟩, hclauses, rfl, _⟩ := h
    rw [exposedAll, exposedOperatorsAll]
    exact rel_append
      (conditions_exposed clause hclause fun c hc => hleaves c (mem_append_left _ hc))
      (conditionsAll_exposed clauses hclauses fun c hc => hleaves c (mem_append_right _ hc))

end

theorem calm_iff_of_forall₂ {cs : List Condition} {ops : List WhereOperator}
    (h : List.Forall₂ (CalmUnlessLoopback g b) cs ops) :
    (∀ c ∈ cs, Calm g b c) ↔ WhereOperator.isLoopback ∉ ops := by
  induction h with
  | nil => simp
  | @cons c op cs ops hcalm _ ih =>
    rw [CalmUnlessLoopback] at hcalm
    rw [forall_mem_cons, mem_cons, not_or, ih, hcalm]
    exact and_congr_left fun _ => ⟨fun h heq => h heq.symm, fun h heq => h heq.symm⟩

end Exposed

/-! ### Structure of the generated SQL -/

/-- Reading the SQL gives the formula of the clause over its conditions, under every truth assignment, and no
condition is regrouped with its siblings. The text is read in every mode of the database in which its path
literals mean what was written. -/
def Preserves (g : Generator) (clause : WhereClause) (k : Nat) (sql : String) : Prop :=
  ∀ b, PlainPaths g b clause → ∃ f s, conditions g clause ⟨k, []⟩ = .ok (f, s) ∧
    (∀ v, read v ((lex (rules b g.dialect) sql.toList).zipIdx) =
      some ((placedLeaves g b 0 f).eval (leafValue v))) ∧
    ∀ c ∈ f.exposed, Calm g b c

/-- The boolean structure of a clause is preserved exactly when no loopback check is a member of a
conjunction of two or more. -/
theorem generated_structure_iff {g : Generator} {clause : WhereClause} {k : Nat} {sql : String}
    {params : List Json} (h : generateWithParamOffset g clause k = .ok (sql, params)) :
    Preserves g clause k sql ↔ WhereOperator.isLoopback ∉ exposedOperators clause := by
  obtain ⟨f, s, hconditions, rfl, _⟩ := generate_eq_ok h
  constructor
  · intro hpreserves
    have hplain : PlainPaths g false clause := nofun
    obtain ⟨f', s', hconditions', _, hcalm⟩ := hpreserves false hplain
    have hleaves := conditions_wellFormed clause hconditions' hplain
    exact (calm_iff_of_forall₂ (conditions_exposed clause hconditions' hleaves)).mp hcalm
  · intro hloopback b hplain
    have hleaves := conditions_wellFormed clause hconditions hplain
    have hcalm := (calm_iff_of_forall₂ (conditions_exposed clause hconditions hleaves)).mpr hloopback
    refine ⟨f, s, hconditions, ?_, hcalm⟩
    intro v
    rw [String.toList_ofList, lex_generated hconditions hplain]
    exact (layout_readsAs f 0 hleaves hcalm false nofun).read_eq

/-- A loopback check alone in its conjunction, beside a disjunction. -/
theorem lone_loopback_preserved : ∃ sql params,
    generateWithParamOffset (new .postgres) (.or [.and [.field ["ip"] .isLoopback (.bool true)],
      .field ["name"] .eq (.str "Ada")]) 0 = .ok (sql, params) ∧
    Preserves (new .postgres) (.or [.and [.field ["ip"] .isLoopback (.bool true)],
      .field ["name"] .eq (.str "Ada")]) 0 sql :=
  ⟨_, _, rfl, (generated_structure_iff rfl).mpr (by decide)⟩

/-- A loopback check beside a tenant condition: the IPv6 half of the check holds for every tenant. -/
theorem loopback_escapes_conjunction : ∃ sql params,
    generateWithParamOffset (new .postgres) (.and [.field ["tenant"] .eq (.str "a"),
      .field ["ip"] .isLoopback (.bool true)]) 0 = .ok (sql, params) ∧
    ¬Preserves (new .postgres) (.and [.field ["tenant"] .eq (.str "a"),
      .field ["ip"] .isLoopback (.bool true)]) 0 sql := by
  refine ⟨_, _, rfl, ?_⟩
  intro hpreserves
  obtain ⟨f, s, hconditions, hread, _⟩ := hpreserves false nofun
  cases hconditions
  -- everything in the text after the first half of the check is true
  have hlate := hread fun ts => decide (25 < (ts.headD (.symbol ' ', 0)).2)
  revert hlate
  rw [String.toList_ofList]
  decide +kernel

end FraiseQL.WhereGenerator
