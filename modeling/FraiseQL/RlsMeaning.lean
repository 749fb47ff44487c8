import FraiseQL.RlsPolicyCache
import FraiseQL.WhereFilter

/-! What the expressions of row security say, and what their clauses admit. An equality of a user and an object field is
kept; a comparison with a literal becomes a condition on a field of the object, and where no form is recognized an
expression that mentions the tenant is taken for the isolation of tenants. The default policy isolates tenants only
for a user who has one. -/

namespace FraiseQL.Rls

open RustText Option

/-- Equality as the database computes it. -/
structure DbEquality where
  equal : Json → Json → Bool
  null_left : ∀ v, equal .null v = false
  null_right : ∀ v, equal v .null = false
  refl : ∀ v, v ≠ .null → equal v v = true

def DbEquality.holds (eq : DbEquality) : WhereOperator → Option Json → Json → Bool
  | .eq, some stored, v => eq.equal stored v
  | _, _, _ => false

variable (eq : DbEquality) (fromStr : String → Option Json)

/-- No clause admits every object. -/
def Admits (clause : Option WhereClause) (doc : Json) : Prop :=
  ∀ c ∈ clause, WhereFilter.eval eq.holds doc c = true

/-! ### Expressions -/

inductive Expression where
  | same (userField objectField : List Char)
  | is (userField : List Char) (literal : Json)
  | includes (role : List Char)

/-- One word, without an operator or a quote. -/
def Name (cs : List Char) : Prop :=
  cs ≠ [] ∧ ∀ c ∈ cs, isWhitespace c = false ∧ c ∉ ['=', '!', '<', '>', '&', '|', '(', ')', '\'', '"']

instance (cs : List Char) : Decidable (Name cs) := @instDecidableAnd _ _ _ (List.decidableBAll _ cs)

/-- What a text says: one comparison of two sides, or one test of a role. -/
inductive Denotes (expr : List Char) : Expression → Prop where
  | same {f right g : List Char} : equality expr = some (f, right) → stripStart "object.".toList right = some g →
    Name f → Name g → Denotes expr (.same f g)
  | is {f right : List Char} {literal : Json} : equality expr = some (f, right) →
    stripStart "object.".toList right = none → fromStr (String.ofList right) = some literal → Name f →
    Denotes expr (.is f literal)
  | includes {role : List Char} : membership expr = some role → containsText "==".toList expr = false →
    Denotes expr (.includes role)

def Expression.Holds (ctx : SecurityContext) (doc : Json) : Expression → Prop
  | .same f g => ∃ v, extractUserValue f ctx = some v ∧ eq.holds .eq (doc.get? (String.ofList g)) v = true
  | .is f literal => extractUserValue f ctx = some literal
  | .includes role => hasRole ctx role = true

/-- The evaluation fails, or its clause admits the objects for which the expression holds. -/
def KeepsMeaning (expression : String) (ctx : SecurityContext) : Prop :=
  ∀ clause, evaluateRlsExpression fromStr expression ctx = .ok clause →
    ∃ e, Denotes fromStr (trim expression.toList) e ∧ ∀ doc, Admits eq clause doc ↔ e.Holds eq ctx doc

/-- Where no equality is recognized: the user holds the role of a plain test, or is not taken for a tenant's. -/
def PlainTest (expr : List Char) (ctx : SecurityContext) : Prop :=
  if (membership expr).any (hasRole ctx) then containsText "==".toList expr = false
  else mentionsTenant expr = true → ctx.tenantId = none

/-- The sides of an equality are names; a literal is compared only for a user who does not have the field. -/
def Plain (expr : List Char) (ctx : SecurityContext) : Prop :=
  match equality expr with
  | none => PlainTest expr ctx
  | some (f, right) =>
    match stripStart "object.".toList right, fromStr (String.ofList right) with
    | some g, _ => Name f ∧ Name g
    | none, some literal => Name f ∧ (extractUserValue f ctx).getD .null = .null ∧
        extractUserValue f ctx ≠ some literal
    | none, none => PlainTest expr ctx

variable {eq fromStr} {ctx : SecurityContext} {expr : List Char} {name : String} {v doc : Json}

theorem admits_field : Admits eq (some (.field [name] .eq v)) doc ↔ eq.holds .eq (doc.get? name) v = true := by
  simp [Admits, WhereFilter.eval, WhereFilter.valueAt]

theorem holds_null (stored : Option Json) : eq.holds .eq stored .null = false := by
  cases stored with
  | none => rfl
  | some stored => exact eq.null_right stored

theorem get?_self : (Json.obj [(name, v)]).get? name = some v := by
  simp [Json.get?, Json.lookup]

/-- A condition on a field of the object is none on the user alone. -/
theorem not_constant (hv : v ≠ .null) (p : Prop) : ¬∀ doc, Admits eq (some (.field [name] .eq v)) doc ↔ p := by
  intro h
  have hin := h (.obj [(name, v)])
  have hout := h .null
  rw [admits_field] at hin hout
  rw [get?_self] at hin
  exact Bool.noConfusion (hout.mpr (hin.mp (eq.refl v hv)))

/-- The clause of an equality, when one is recognized. -/
def equated (fromStr : String → Option Json) (expr : List Char) (ctx : SecurityContext) : Option WhereClause :=
  (equality expr).bind fun (field, right) => equalityClause fromStr (extractUserValue field ctx) right

variable {expression : String}

theorem evaluate_of_equated {clause : WhereClause} (h : equated fromStr (trim expression.toList) ctx = some clause) :
    evaluateRlsExpression fromStr expression ctx = .ok (some clause) := by
  unfold evaluateRlsExpression equated at *
  dsimp only
  rw [h]

/-- Where an equality is recognized, its clause is what counts. -/
theorem keepsMeaning_equated {clause : WhereClause} (h : equated fromStr (trim expression.toList) ctx = some clause) :
    KeepsMeaning eq fromStr expression ctx ↔
      ∃ e, Denotes fromStr (trim expression.toList) e ∧ ∀ doc, Admits eq (some clause) doc ↔ e.Holds eq ctx doc := by
  rw [KeepsMeaning, evaluate_of_equated h]
  exact ⟨fun hkeeps => hkeeps _ rfl, fun he clause' heq => Except.ok.inj heq ▸ he⟩

/-- The text of an equality is no test of a role. -/
theorem contains_of_equality {parts : List Char × List Char} (h : equality expr = some parts) :
    containsText "==".toList expr = true := by
  obtain ⟨sides, hsides, -⟩ := bind_eq_some_iff.mp h
  rw [containsText, hsides]
  rfl

/-- The text of an equality denotes one of an object field or of a literal. -/
theorem Denotes.equality {e : Expression} {f right : List Char} (he : Denotes fromStr expr e)
    (h : equality expr = some (f, right)) : Name f ∧
      ((∃ g, stripStart "object.".toList right = some g ∧ Name g) ∨
        ∃ literal, stripStart "object.".toList right = none ∧ fromStr (String.ofList right) = some literal ∧
          e = .is f literal) := by
  cases he with
  | same hparts hstrip hf hg =>
    cases h.symm.trans hparts
    exact ⟨hf, .inl ⟨_, hstrip, hg⟩⟩
  | is hparts hstrip hliteral hf =>
    cases h.symm.trans hparts
    exact ⟨hf, .inr ⟨_, hstrip, hliteral, rfl⟩⟩
  | includes _ hplain =>
    rw [contains_of_equality h] at hplain
    cases hplain

/-- Where no equality is recognized only tests of a role are denoted. -/
theorem Denotes.test {e : Expression} (he : Denotes fromStr expr e) (h : equated fromStr expr ctx = none) :
    containsText "==".toList expr = false := by
  cases he with
  | same hparts hstrip =>
    simp only [equated, hparts, bind_some, equalityClause, hstrip] at h
    cases h
  | is hparts hstrip hliteral =>
    simp only [equated, hparts, bind_some, equalityClause, hstrip, hliteral] at h
    cases h
  | includes _ hplain => exact hplain

theorem keepsMeaning_test (h : equated fromStr (trim expression.toList) ctx = none) :
    KeepsMeaning eq fromStr expression ctx ↔ PlainTest (trim expression.toList) ctx := by
  have hdenotes := fun e (he : Denotes fromStr (trim expression.toList) e) => he.test h
  unfold equated at h
  unfold KeepsMeaning evaluateRlsExpression PlainTest
  dsimp only
  rw [h]
  dsimp only
  split_ifs with hheld hmentions
  · obtain ⟨role, hrole, hhas⟩ := (any_eq_true _ _).mp hheld
    constructor
    · intro hkeeps
      obtain ⟨e, he, -⟩ := hkeeps none rfl
      exact hdenotes e he
    · intro hplain clause heq
      rw [← Except.ok.inj heq]
      exact ⟨_, .includes hrole hplain, fun doc => iff_of_true nofun hhas⟩
  · cases htenant : ctx.tenantId with
    | none => exact iff_of_true nofun fun _ => rfl
    | some tenantId =>
      refine iff_of_false (fun hkeeps => ?_) fun hnone => nomatch hnone hmentions
      obtain ⟨e, he, -⟩ := hkeeps _ rfl
      rw [mentionsTenant, hdenotes e he, Bool.and_false] at hmentions
      cases hmentions
  · exact iff_of_true nofun fun hmentions' => absurd hmentions' hmentions

/-- An expression keeps its meaning exactly when it is plain. -/
theorem keepsMeaning_iff :
    KeepsMeaning eq fromStr expression ctx ↔ Plain fromStr (trim expression.toList) ctx := by
  unfold Plain
  cases hparts : equality (trim expression.toList) with
  | none => exact keepsMeaning_test (by rw [equated, hparts]; rfl)
  | some parts =>
    obtain ⟨f, right⟩ := parts
    dsimp only
    cases hstrip : stripStart "object.".toList right with
    | some g =>
      have hequated : equated fromStr (trim expression.toList) ctx =
          some (.field [String.ofList g] .eq ((extractUserValue f ctx).getD .null)) := by
        simp only [equated, hparts, bind_some, equalityClause, hstrip]
      rw [keepsMeaning_equated hequated]
      constructor
      · rintro ⟨e, he, -⟩
        obtain ⟨hf, ⟨_, hstrip', hg⟩ | ⟨_, hstrip', -⟩⟩ := he.equality hparts
        · cases hstrip.symm.trans hstrip'
          exact ⟨hf, hg⟩
        · cases hstrip.symm.trans hstrip'
      · rintro ⟨hf, hg⟩
        refine ⟨_, .same hparts hstrip hf hg, fun doc => ?_⟩
        rw [admits_field, Expression.Holds]
        cases extractUserValue f ctx with
        | none => simp [holds_null]
        | some v => simp
    | none =>
      cases hliteral : fromStr (String.ofList right) with
      | none =>
        apply keepsMeaning_test
        simp only [equated, hparts, bind_some, equalityClause, hstrip, hliteral]
        rfl
      | some literal =>
        have hequated : equated fromStr (trim expression.toList) ctx =
            some (.field ["_literal_"] .eq ((extractUserValue f ctx).getD .null)) := by
          simp only [equated, hparts, bind_some, equalityClause, hstrip, hliteral]
          rfl
        have hnever : ∀ doc, ¬Admits eq (some (.field ["_literal_"] .eq .null)) doc := by
          intro doc
          rw [admits_field, holds_null]
          decide
        rw [keepsMeaning_equated hequated]
        constructor
        · rintro ⟨e, he, hall⟩
          obtain ⟨hf, ⟨_, hstrip', -⟩ | ⟨_, -, hliteral', rfl⟩⟩ := he.equality hparts
          · cases hstrip.symm.trans hstrip'
          cases hliteral.symm.trans hliteral'
          have hnull : (extractUserValue f ctx).getD .null = .null := by
            by_contra hne
            exact not_constant hne _ hall
          rw [hnull] at hall
          exact ⟨hf, hnull, fun heq => hnever .null ((hall .null).mpr heq)⟩
        · rintro ⟨hf, hnull, hne⟩
          rw [hnull]
          exact ⟨_, .is hparts hstrip hliteral hf, fun doc => iff_of_false (hnever doc) hne⟩

/-! ### The default policy -/

structure DefaultRLSPolicy where
  enableTenantIsolation : Bool
  tenantField : String
  ownerField : String

namespace DefaultRLSPolicy

variable (policy : DefaultRLSPolicy)

def filters (ctx : SecurityContext) : List WhereClause :=
  (if policy.enableTenantIsolation then
    (ctx.tenantId.map fun tenantId => .field [policy.tenantField] .eq (.str tenantId)).toList else []) ++
  [.field [policy.ownerField] .eq (.str ctx.userId)]

def evaluate : RlsPolicy := fun ctx _ =>
  if Policy.isAdmin ctx then .ok none
  else match policy.filters ctx with
    | [] => .ok none
    | [filter] => .ok (some filter)
    | filters => .ok (some (.and filters))

/-- Only objects of the user's tenant are admitted. -/
def Isolates (eq : DbEquality) (ctx : SecurityContext) (typeName : String) : Prop :=
  policy.enableTenantIsolation = true → ∀ clause, policy.evaluate ctx typeName = .ok clause → ∀ doc,
    Admits eq clause doc → ∃ tenantId, ctx.tenantId = some tenantId ∧
      eq.holds .eq (doc.get? policy.tenantField) (.str tenantId) = true

variable {policy}

theorem isolates_iff {typeName : String} (hadmin : Policy.isAdmin ctx = false) :
    policy.Isolates eq ctx typeName ↔ (policy.enableTenantIsolation = true → ctx.tenantId ≠ none) := by
  refine forall_congr' fun henabled => ?_
  unfold evaluate filters
  rw [hadmin, henabled]
  cases htenant : ctx.tenantId with
  | none =>
    refine iff_of_false (fun h => ?_) fun h => h rfl
    have howner : Admits eq (some (.field [policy.ownerField] .eq (.str ctx.userId)))
        (.obj [(policy.ownerField, .str ctx.userId)]) := by
      rw [admits_field, get?_self]
      exact eq.refl _ nofun
    obtain ⟨_, hnone, -⟩ := h _ rfl _ howner
    cases hnone
  | some tenantId =>
    refine iff_of_true (fun clause hclause doc hadmits => ⟨tenantId, rfl, ?_⟩) nofun
    obtain rfl := Except.ok.inj hclause
    have hboth := hadmits _ rfl
    simp only [WhereFilter.eval, WhereFilter.evalAll, Bool.and_eq_true] at hboth
    simpa [WhereFilter.valueAt] using hboth.1

end DefaultRLSPolicy

/-- For a user who is no administrator an expression keeps its meaning exactly when it is plain, and the default policy
isolates tenants exactly when the user has one. -/
theorem rls_meaning_iff (eq : DbEquality) (fromStr : String → Option Json) (expression : String)
    (policy : DefaultRLSPolicy) (typeName : String) (ctx : SecurityContext) (hadmin : Policy.isAdmin ctx = false) :
    (KeepsMeaning eq fromStr expression ctx ∧ policy.Isolates eq ctx typeName) ↔
      (Plain fromStr (trim expression.toList) ctx ∧ (policy.enableTenantIsolation = true → ctx.tenantId ≠ none)) := by
  rw [keepsMeaning_iff, DefaultRLSPolicy.isolates_iff hadmin]

/-- Values are equal when they are the same and not null. -/
def sameValue : DbEquality where
  equal a b := decide (a = b ∧ a ≠ .null)
  null_left := by simp
  null_right := by simp
  refl := by simp

def tenantIsolation : DefaultRLSPolicy := ⟨true, "tenant_id", "author_id"⟩

/-- The isolation of tenants, for a user who has one. -/
theorem rls_meaning_tenant : KeepsMeaning sameValue (fun _ => none) "user.tenant_id == object.tenant_id"
    (memberOf "acme") ∧ tenantIsolation.Isolates sameValue (memberOf "acme") "Order" := by
  refine (rls_meaning_iff _ _ _ _ _ _ (by decide)).mpr ⟨?_, nofun⟩
  show Name "tenant_id".toList ∧ Name "tenant_id".toList
  decide

def adaText (text : String) : Option Json := if text = "\"ada\"" then some (.str "ada") else none

/-- A condition on the user alone is made one on the objects. -/
theorem literal_misread : ¬KeepsMeaning sameValue adaText "user.id == \"ada\"" (memberOf "acme") := by
  rw [keepsMeaning_iff]
  rintro ⟨-, hnull, -⟩
  cases hnull

end FraiseQL.Rls
