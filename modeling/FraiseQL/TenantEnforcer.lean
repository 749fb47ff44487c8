import FraiseQL.DialectLexing
import FraiseQL.RustText
import FraiseQL.SqlSelect
import FraiseQL.WhereFilter

/-! Tenant scoping (`tenant_enforcer.rs`). A clause is scoped by a conjunction; a statement given as text by searching
it for keywords and inserting a filter. What the insertion does is read off the tokens: it narrows the statement when
the keyword found is the clause it is taken for, the place is the end of the condition, and the condition keeps its
meaning there. -/

namespace FraiseQL

open SqlLex SqlBoolean SqlSelect RustText Dialect WhereFilter List

structure TenantEnforcer where
  orgId : Option String
  requireTenant : Bool

namespace TenantEnforcer

def missingOrgId : String := "Request must be tenant-scoped (missing org_id)"

def orgIdFilter (orgId : String) : WhereClause := .field ["org_id"] .eq (.str orgId)

variable (enforcer : TenantEnforcer)

def enforceTenantScope (whereClause : Option WhereClause) : Except String (Option WhereClause) :=
  if enforcer.requireTenant ∧ enforcer.orgId = none then .error missingOrgId
  else
    match enforcer.orgId with
    | none => .ok whereClause
    | some orgId =>
      match whereClause with
      | none => .ok (some (orgIdFilter orgId))
      | some userClause => .ok (some (.and [userClause, orgIdFilter orgId]))

/-- The filter with the quotes of the id doubled. -/
def orgIdText (orgId : String) : List Char := lit "org_id = " ++ quote .single orgId.toList

/-- A filter put before the first occurrence of a clause. -/
def scopeBefore (clause filter sql : List Char) : List Char :=
  match splitOnce clause sql with
  | some (before, after) => before ++ (lit " WHERE " ++ (filter ++ (lit " " ++ (clause ++ (lit " " ++ after)))))
  | none => sql

/-- `enforce_tenant_scope_sql`; `toUppercase` is `char::to_uppercase`. -/
def enforceTenantScopeSql (toUppercase : Char → List Char) (sql : List Char) : Except String (List Char) :=
  if enforcer.requireTenant ∧ enforcer.orgId = none then .error missingOrgId
  else
    match enforcer.orgId with
    | none => .ok sql
    | some orgId =>
      let sqlUpper := sql.flatMap toUppercase
      if containsText (lit "WHERE") sqlUpper then .ok (sql ++ (lit " AND " ++ orgIdText orgId))
      else if containsText (lit "GROUP BY") sqlUpper then .ok (scopeBefore (lit "GROUP BY") (orgIdText orgId) sql)
      else if containsText (lit "ORDER BY") sqlUpper then .ok (scopeBefore (lit "ORDER BY") (orgIdText orgId) sql)
      else .ok (sql ++ (lit " WHERE " ++ orgIdText orgId))

/-! ### The condition -/

section Condition

variable (r : Rules)

/-- The condition of the statement stands last, without an OR outside all parentheses, and the text does not end in a
comment. -/
def EndsInWhere (sql : List Char) : Prop := settlesText r sql = true ∧ EndsInCondition (lex r sql)

/-- The text is a statement without clauses after FROM, and does not end in a comment. -/
def EndsInHead (sql : List Char) : Prop :=
  settlesText r sql = true ∧ upTo SqlSelect.isClause 0 (lex r sql) = (lex r sql, []) ∧ depth (lex r sql) 0 = some 0

/-- The first occurrence of the words is the statement's first clause after FROM. -/
def FirstClause (clause sql : List Char) : Prop :=
  ∃ before after, splitOnce clause sql = some (before, after) ∧ EndsInHead r before ∧
    lex r sql = lex r before ++ (lex r clause ++ lex r after)

/-- Where the filter goes is where it belongs. -/
def ScopedInPlace (toUppercase : Char → List Char) (sql : List Char) : Prop :=
  if containsText (lit "WHERE") (sql.flatMap toUppercase) then EndsInWhere r sql
  else if containsText (lit "GROUP BY") (sql.flatMap toUppercase) then FirstClause r (lit "GROUP BY") sql
  else if containsText (lit "ORDER BY") (sql.flatMap toUppercase) then FirstClause r (lit "ORDER BY") sql
  else EndsInHead r sql

end Condition

/-! ### Tokens of the filter -/

variable {b : Bool} {d : Dialect} {orgId : String}

def orgIdTokens (orgId : String) : List Token :=
  [.word (lit "org_id"), .op ['='], .quoted .single orgId.toList]

theorem orgIdTokens_isAtom (orgId : String) : IsAtom (orgIdTokens orgId) := by
  refine ⟨nofun, rfl, ?_, rfl⟩
  simp only [orgIdTokens, forall_mem_cons]
  exact ⟨by decide, by decide, rfl, nofun⟩

section

variable (hplain : plainIn b d orgId.toList)
include hplain

/-- The filter after a word. -/
theorem orgIdText_lexes {word : List Char} (ts : List Token) (hword : lex (rules b d) (word ++ lit "org_id = ") = ts)
    (hfresh : endsFresh (rules b d) (word ++ lit "org_id = ") = true) :
    Lexes (rules b d) (word ++ orgIdText orgId) (ts ++ [.quoted .single orgId.toList]) false := by
  have hsettles : settlesText (rules b d) (word ++ lit "org_id = ") = true := by
    rw [settlesText, of_decide_eq_true hfresh]
    rfl
  have htext := lexes_text hsettles
  rw [hword] at htext
  rw [orgIdText, ← append_assoc]
  exact htext.append (literal_lexes hplain) (.inl hfresh)

theorem andFilter_lexes :
    Lexes (rules b d) (lit " AND " ++ orgIdText orgId) (.word (lit "AND") :: orgIdTokens orgId) false := by
  apply orgIdText_lexes hplain [.word (lit "AND"), .word (lit "org_id"), .op ['=']]
  · cases d <;> cases b <;> decide
  · cases d <;> cases b <;> decide

theorem whereFilter_lexes :
    Lexes (rules b d) (lit " WHERE " ++ orgIdText orgId) (.word (lit "WHERE") :: orgIdTokens orgId) false := by
  apply orgIdText_lexes hplain [.word (lit "WHERE"), .word (lit "org_id"), .op ['=']]
  · cases d <;> cases b <;> decide
  · cases d <;> cases b <;> decide

/-! ### Scoping -/

variable {sql : List Char}

theorem narrows_appendAnd (hwell : WellFormed (lex (rules b d) sql)) (hplace : EndsInWhere (rules b d) sql) :
    Narrows (clauses (lex (rules b d) sql)) (clauses (lex (rules b d) (sql ++ (lit " AND " ++ orgIdText orgId))))
      (orgIdTokens orgId) := by
  obtain ⟨hsettles, hcondition⟩ := hplace
  have hopens : opens (rules b d) (lit " AND " ++ orgIdText orgId) = true := by cases d <;> cases b <;> rfl
  have hlexes := (lexes_text hsettles).append (andFilter_lexes hplain) (.inr hopens)
  rw [hlexes.tokens]
  exact hcondition.narrows hwell.2 (orgIdTokens_isAtom orgId)

theorem narrows_appendWhere (hplace : EndsInHead (rules b d) sql) :
    Narrows (clauses (lex (rules b d) sql)) (clauses (lex (rules b d) (sql ++ (lit " WHERE " ++ orgIdText orgId))))
      (orgIdTokens orgId) := by
  obtain ⟨hsettles, hsplit, hdepth⟩ := hplace
  have hopens : opens (rules b d) (lit " WHERE " ++ orgIdText orgId) = true := by cases d <;> cases b <;> rfl
  have hlexes := (lexes_text hsettles).append (whereFilter_lexes hplain) (.inr hopens)
  have hrest : ∀ u ∈ ([] : List Token).head?, isLater u = true := nofun
  have hnarrows := narrows_where hsplit hdepth (t := .word (lit "WHERE")) rfl (orgIdTokens_isAtom orgId) hrest
  rw [append_nil, append_nil] at hnarrows
  rw [hlexes.tokens]
  exact hnarrows

theorem narrows_scopeBefore {clause : List Char}
    (hclause : ∀ t ∈ (lex (rules b d) clause).head?, isLater t = true) (hsome : lex (rules b d) clause ≠ [])
    (hfresh : endsFresh (rules b d) (lit " " ++ (clause ++ lit " ")) = true)
    (htokens : lex (rules b d) (lit " " ++ (clause ++ lit " ")) = lex (rules b d) clause)
    (hplace : FirstClause (rules b d) clause sql) :
    Narrows (clauses (lex (rules b d) sql))
      (clauses (lex (rules b d) (scopeBefore clause (orgIdText orgId) sql))) (orgIdTokens orgId) := by
  obtain ⟨before, after, hsplit, ⟨hsettles, hhead, hdepth⟩, hlex⟩ := hplace
  have hopens : opens (rules b d) (lit " WHERE " ++ orgIdText orgId) = true := by cases d <;> cases b <;> rfl
  have hblank : opens (rules b d) (lit " " ++ (clause ++ lit " ")) = true := by cases d <;> cases b <;> rfl
  have hbetween : settlesText (rules b d) (lit " " ++ (clause ++ lit " ")) = true := by
    rw [settlesText, of_decide_eq_true hfresh]
    rfl
  have hfilter := (lexes_text hsettles).append (whereFilter_lexes hplain) (.inr hopens)
  have hwhole := hfilter.append (lexes_text hbetween) (.inr hblank)
  rw [hfresh, htokens] at hwhole
  have htext : scopeBefore clause (orgIdText orgId) sql =
      before ++ (lit " WHERE " ++ orgIdText orgId) ++ (lit " " ++ (clause ++ lit " ")) ++ after := by
    rw [scopeBefore, hsplit]
    simp only [append_assoc]
  have hrest : ∀ t ∈ (lex (rules b d) clause ++ lex (rules b d) after).head?, isLater t = true := by
    cases hwords : lex (rules b d) clause with
    | nil => exact absurd hwords hsome
    | cons t ts =>
      rw [hwords] at hclause
      exact hclause
  have hnarrows := narrows_where hhead hdepth (t := .word (lit "WHERE")) rfl (orgIdTokens_isAtom orgId) hrest
  rw [htext, hwhole.lex_append, hlex]
  simp only [append_assoc, cons_append] at hnarrows ⊢
  exact hnarrows

theorem narrows_groupBy (hplace : FirstClause (rules b d) (lit "GROUP BY") sql) :
    Narrows (clauses (lex (rules b d) sql))
      (clauses (lex (rules b d) (scopeBefore (lit "GROUP BY") (orgIdText orgId) sql))) (orgIdTokens orgId) := by
  apply narrows_scopeBefore hplain
  · cases d <;> cases b <;> decide
  · cases d <;> cases b <;> decide
  · cases d <;> cases b <;> decide
  · cases d <;> cases b <;> decide
  · exact hplace

theorem narrows_orderBy (hplace : FirstClause (rules b d) (lit "ORDER BY") sql) :
    Narrows (clauses (lex (rules b d) sql))
      (clauses (lex (rules b d) (scopeBefore (lit "ORDER BY") (orgIdText orgId) sql))) (orgIdTokens orgId) := by
  apply narrows_scopeBefore hplain
  · cases d <;> cases b <;> decide
  · cases d <;> cases b <;> decide
  · cases d <;> cases b <;> decide
  · cases d <;> cases b <;> decide
  · exact hplace

theorem enforceTenantScopeSql_narrows (toUppercase : Char → List Char) (requireTenant : Bool)
    (hwell : WellFormed (lex (rules b d) sql)) (hplace : ScopedInPlace (rules b d) toUppercase sql) :
    ∃ enforced, enforceTenantScopeSql ⟨some orgId, requireTenant⟩ toUppercase sql = .ok enforced ∧
      Narrows (clauses (lex (rules b d) sql)) (clauses (lex (rules b d) enforced)) (orgIdTokens orgId) := by
  have hpresent : ¬(requireTenant = true ∧ some orgId = none) := fun h => nomatch h.2
  rw [enforceTenantScopeSql, if_neg hpresent]
  rw [ScopedInPlace] at hplace
  dsimp only
  split_ifs at hplace ⊢
  · exact ⟨_, rfl, narrows_appendAnd hplain hwell hplace⟩
  · exact ⟨_, rfl, narrows_groupBy hplain hplace⟩
  · exact ⟨_, rfl, narrows_orderBy hplain hplace⟩
  · exact ⟨_, rfl, narrows_appendWhere hplain hplace⟩

end

theorem enforceTenantScope_eval (requireTenant : Bool) (whereClause : Option WhereClause) :
    ∃ enforced, enforceTenantScope ⟨some orgId, requireTenant⟩ whereClause = .ok (some enforced) ∧
      ∀ (holds : WhereOperator → Option Json → Json → Bool) (doc : Json),
        eval holds doc enforced = (whereClause.elim true (eval holds doc) && eval holds doc (orgIdFilter orgId)) := by
  have hpresent : ¬(requireTenant = true ∧ some orgId = none) := fun h => nomatch h.2
  rw [enforceTenantScope, if_neg hpresent]
  cases whereClause with
  | none => exact ⟨_, rfl, fun _ _ => (Bool.true_and _).symm⟩
  | some userClause =>
    refine ⟨_, rfl, ?_⟩
    intro holds doc
    rw [eval, evalAll, evalAll, evalAll, Bool.and_true]
    rfl

def asciiUppercase (c : Char) : List Char := [c.toUpper]

end TenantEnforcer

end FraiseQL
