import FraiseQL.WherePredicates

/-! The SQL of the generic WHERE generator with its parameters as literals in the places of their placeholders. For a
clause that the wire generator takes as well, both texts are those of the formulas of the clause. -/

namespace FraiseQL.WherePredicates

open SqlLex PostgresPredicate List Option
open WhereGenerator (Formula Condition GenState bindKinds bindKindsAll boundOf layout layoutAll conditions)

/-- A piece with the parameter of its number in the place of a placeholder. -/
def inlinePiece (params : List Json) : WhereGenerator.Piece → List Char
  | .param n _ =>
    match params[n - 1]? with
    | some value => (literalOf value).render
    | none => []
  | piece => piece.render (WhereGenerator.new .postgres)

def inlineSql (params : List Json) (pieces : WhereGenerator.Sql) : List Char := pieces.flatMap (inlinePiece params)

/-! ### Numbers -/

theorem not_isExtended {op : WhereOperator} {kind : Kind} (h : kindOf op = some kind) :
    WhereGenerator.isExtended op = false := by
  cases op <;> first | rfl | cases h

mutual

/-- The wire generator takes no operator that counts its parameters in its own way. -/
theorem bindKinds_plain : ∀ (clause : WhereClause) {F : Formula Predicate}, genericOf clause = some F →
    true ∉ bindKinds clause
  | .field path op value, F, h => by
    obtain ⟨kind, hkind, -⟩ := bind_eq_some_iff.mp h
    rw [bindKinds, not_isExtended hkind, mem_replicate]
    exact fun h => Bool.noConfusion h.2
  | .nativeField _ _ _ _, F, h => by
    rw [bindKinds]
    decide
  | .and clauses, F, h | .or clauses, F, h => by
    obtain ⟨Fs, hFs, -⟩ := map_eq_some_iff.mp h
    exact bindKindsAll_plain clauses hFs
  | .not clause, F, h => by
    obtain ⟨F', hF', -⟩ := map_eq_some_iff.mp h
    exact bindKinds_plain clause hF'

theorem bindKindsAll_plain : ∀ (clauses : List WhereClause) {Fs : List (Formula Predicate)},
    genericAll clauses = some Fs → true ∉ bindKindsAll clauses
  | [], _, _ => nofun
  | clause :: clauses, Fs, h => by
    obtain ⟨F, hF, hrest⟩ := bind_eq_some_iff.mp h
    obtain ⟨Fs', hFs', -⟩ := map_eq_some_iff.mp hrest
    rw [bindKindsAll, mem_append, not_or]
    exact ⟨bindKinds_plain clause hF, bindKindsAll_plain clauses hFs'⟩

end

theorem of_mem_joined {π : Type} {sep x : π} {parts : List (List π)} (h : x ∈ joined sep parts) :
    x = sep ∨ ∃ part ∈ parts, x ∈ part := by
  induction parts with
  | nil => cases h
  | cons part parts ih =>
    cases parts with
    | nil => exact .inr ⟨part, mem_cons_self, h⟩
    | cons next parts =>
      rw [joined_cons_cons, mem_append, mem_cons] at h
      rcases h with hpart | rfl | hrest
      · exact .inr ⟨part, mem_cons_self, hpart⟩
      · exact .inl rfl
      · refine (ih hrest).imp_right ?_
        rintro ⟨part', hmem, hx⟩
        exact ⟨part', mem_cons_of_mem _ hmem, hx⟩

/-- A placeholder of a condition stands for a value of it. -/
theorem condition_bound {c : Condition} {n : Nat} {value : Json} (h : WhereGenerator.Piece.param n value ∈ c.sql) :
    (n, value) ∈ c.bound := by
  obtain ⟨frag, -, hfrag⟩ := mem_map.mp h
  match frag, hfrag with
  | .hole (.param i), hfrag =>
    rw [Condition.piece] at hfrag
    split at hfrag
    · next hbound =>
        cases hfrag
        exact mem_of_getElem? hbound
    · cases hfrag

theorem enclosed_param {sep : List Char} {sqls : List WhereGenerator.Sql} {n : Nat} {value : Json}
    (h : WhereGenerator.Piece.param n value ∈
      WhereGenerator.Piece.text (lit "(") :: WhereGenerator.joinSql sep sqls ++ [.text (lit ")")]) :
    ∃ sql ∈ sqls, WhereGenerator.Piece.param n value ∈ sql := by
  rw [cons_append, mem_cons, mem_append, mem_singleton] at h
  rcases h with h | h | h
  · cases h
  · rcases of_mem_joined h with h | h
    · cases h
    · exact h
  · cases h

mutual

theorem layout_bound : ∀ (f : Formula Condition) {n : Nat} {value : Json},
    WhereGenerator.Piece.param n value ∈ layout .postgres f → (n, value) ∈ boundOf f
  | .leaf c, n, value, h => by
    rw [boundOf, Formula.leaves, flatMap_singleton]
    exact condition_bound h
  | .and [], _, _, h => by
    cases mem_singleton.mp h
  | .and (f :: fs), n, value, h => by
    obtain ⟨sql, hsql, hmem⟩ := enclosed_param h
    exact layoutAll_bound (f :: fs) hsql hmem
  | .or [], _, _, h => by
    cases mem_singleton.mp h
  | .or (f :: fs), n, value, h => by
    obtain ⟨sql, hsql, hmem⟩ := enclosed_param h
    exact layoutAll_bound (f :: fs) hsql hmem
  | .not f, n, value, h => by
    rw [layout, cons_append, mem_cons, mem_append, mem_singleton] at h
    rcases h with h | h | h
    · cases h
    · exact layout_bound f h
    · cases h

theorem layoutAll_bound : ∀ (fs : List (Formula Condition)) {sql : WhereGenerator.Sql} {n : Nat} {value : Json},
    sql ∈ layoutAll .postgres fs → WhereGenerator.Piece.param n value ∈ sql →
      (n, value) ∈ (WhereGenerator.leavesAll fs).flatMap Condition.bound
  | f :: fs, sql, n, value, hsql, hmem => by
    rw [WhereGenerator.leavesAll, flatMap_append, mem_append]
    rcases mem_cons.mp hsql with rfl | hsql
    · exact .inl (layout_bound f hmem)
    · exact .inr (layoutAll_bound fs hsql hmem)

end

/-! ### Texts -/

/-- The texts of both generators, with the parameters in place, are those of the formulas of the clause. -/
theorem generators_texts {clause : WhereClause} {wire generic : String} {params : List Json}
    (hwire : WhereSqlGenerator.toSql clause = .ok wire)
    (hgeneric : WhereGenerator.generate (WhereGenerator.new .postgres) clause = .ok (generic, params)) :
    ∃ F G pieces, wireOf clause = some F ∧ genericOf clause = some G ∧ wire.toList = renderParts (formulaParts F) ∧
      generic = String.ofList (WhereGenerator.renderSql (WhereGenerator.new .postgres) pieces) ∧
      inlineSql params pieces = renderParts (formulaParts G) := by
  obtain ⟨sql, hsql, rfl⟩ := Outcome.map_eq_ok.mp hwire
  obtain ⟨f, s, hf, rfl, rfl⟩ := WhereGenerator.generate_eq_ok hgeneric
  have hvisit : WhereGenerator.visit (WhereGenerator.new .postgres) clause ⟨0, []⟩ = .ok (layout .postgres f, s) := by
    rw [WhereGenerator.visit_eq_layout, hf]
    rfl
  obtain ⟨⟨F, hF, hrender⟩, ⟨G, hG, hparts⟩⟩ := clause_written clause hsql hvisit
  refine ⟨F, G, layout .postgres f, hF, hG, by rw [String.toList_ofList, hrender], rfl, ?_⟩
  have hplain := bindKinds_plain clause hG
  obtain ⟨-, f', s', hf', -, hzip⟩ := (WhereGenerator.generateWithParamOffset_aligned_iff hgeneric).mpr
    ⟨pairwise_of_forall_mem_list fun a ha _ _ h => absurd (h ▸ ha) hplain, fun h => absurd h hplain⟩
  obtain ⟨rfl, rfl⟩ := Prod.mk.inj (Except.ok.inj (hf.symm.trans hf'))
  have hvalue : ∀ n value, WhereGenerator.Piece.param n value ∈ layout .postgres f → s.params[n - 1]? = some value := by
    intro n value hmem
    have hbound := layout_bound f hmem
    rw [hzip] at hbound
    obtain ⟨i, hi, hget⟩ := getElem_of_mem hbound
    rw [getElem_zip, getElem_range', Prod.mk.injEq] at hget
    obtain ⟨rfl, rfl⟩ := hget
    simp
  have hpieces : ∀ piece ∈ layout .postgres f, inlinePiece s.params piece = (substituted piece).render := by
    intro piece hmem
    rw [substituted_render]
    cases piece with
    | param n value => rw [inlinePiece, hvalue n value hmem]
    | _ => rfl
  rw [← hparts, renderParts, flatMap_map]
  exact flatMap_congr hpieces

end FraiseQL.WherePredicates
