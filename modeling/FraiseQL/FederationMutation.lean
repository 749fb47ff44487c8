import FraiseQL.FederationEntities
import FraiseQL.WhereSqlGeneratorInjection

/-! Statements of federated mutations (`mutation_query_builder.rs`, `sql_utils.rs`). Names and values are quoted, so no
string of the variables is read as anything else. The rows are chosen by the first key field alone: with more key fields
the statement affects rows of other entities, and an update assigns the remaining ones. -/

namespace FraiseQL.Federation

open SqlLex Dialect WhereSqlGenerator Outcome

/-! ### Names and values -/

/-- `quote_postgres_identifier`: each part between dots by itself. -/
def quotePostgresIdentifier (identifier : String) : Sql :=
  joinSql (lit ".") ((identifier.toList.splitOn '.').map fun part => [.text (quote .double part)])

def nullLiteral : Sql := [.text (lit "NULL")]

def valueToSqlLiteral : Json → Except FraiseQLError Sql
  | .str s => .ok [.literal s.toList]
  | .num n => .ok [.text (Json.numberText n).toList]
  | .bool b => .ok [.text (if b then lit "true" else lit "false")]
  | .null => .ok nullLiteral
  | value => .error (.validation ("Cannot convert " ++ typeStr value ++ " to SQL literal") none)

/-! ### Statements -/

/-- A statement with the field and the literal of its condition. -/
inductive MutationStatement where
  | update (table : String) (set : List (String × Sql)) (field : String) (value : Sql)
  | delete (table field : String) (value : Sql)

/-- `name = literal` -/
def equation (e : String × Sql) : Sql := quotePostgresIdentifier e.1 ++ .text (lit " = ") :: e.2

namespace MutationStatement

def sql : MutationStatement → Sql
  | .update table set field value =>
    .text (lit "UPDATE ") :: quotePostgresIdentifier table ++ .text (lit " SET ") ::
      joinSql (lit ", ") (set.map equation) ++ .text (lit " WHERE ") :: equation (field, value)
  | .delete table field value =>
    .text (lit "DELETE FROM ") :: quotePostgresIdentifier table ++ .text (lit " WHERE ") :: equation (field, value)

def condition : MutationStatement → String × Sql
  | .update _ _ field value => (field, value)
  | .delete _ field value => (field, value)

def assigned : MutationStatement → List (String × Sql)
  | .update _ set _ _ => set
  | .delete _ _ _ => []

end MutationStatement

section Builders

variable (toLowercase : String → String) (typename : String) (vars : Json) (metadata : FederationMetadata)

/-- The first key field, the variables and the value of the field among them. The error is missing where `fields[0]`
panics. -/
def keyOfVariables : Except (Option FraiseQLError) (String × List (String × Json) × Json) := do
  let t ← (findFederationType typename metadata).mapError some
  let key ← (getKeyDirective t).mapError some
  match key.fields.head?, vars.asObject? with
  | none, _ => .error none
  | some _, none => .error (some (.validation "Variables must be an object" none))
  | some keyField, some entries =>
    match Json.lookup keyField entries with
    | none => .error (some (.validation ("Key field '" ++ keyField ++ "' missing in variables") none))
    | some keyValue => .ok (keyField, entries, keyValue)

/-- The clauses of `SET`. -/
def setClauses (keyField : String) (entries : List (String × Json)) : Except FraiseQLError (List (String × Sql)) :=
  (entries.filter fun e => e.1 ≠ keyField).mapM fun e => (valueToSqlLiteral e.2).map fun value => (e.1, value)

def buildUpdateQuery : Except (Option FraiseQLError) MutationStatement := do
  let (keyField, entries, keyValue) ← keyOfVariables typename vars metadata
  let set ← (setClauses keyField entries).mapError some
  if set.isEmpty then .error (some (.validation "No fields to update (only key field provided)" none))
  else do
    let value ← (valueToSqlLiteral keyValue).mapError some
    return .update (toLowercase typename) set keyField value

def buildDeleteQuery : Except (Option FraiseQLError) MutationStatement := do
  let (keyField, _, keyValue) ← keyOfVariables typename vars metadata
  let value ← (valueToSqlLiteral keyValue).mapError some
  return .delete (toLowercase typename) keyField value

end Builders

/-! ### What a statement does -/

/-- A row of the table, by the names of its columns; a name may be given in parts. -/
abbrev Reference := List (List Char)

def reference (name : String) : Reference := name.toList.splitOn '.'

/-- PostgreSQL's equality of a column and a literal: nothing equals `NULL`, and for any other literal there is a value
that equals it. -/
structure LiteralEquality (Value : Type) where
  equals : Value → Sql → Prop
  null : Value
  null_left : ∀ l, ¬equals null l
  null_right : ∀ x, ¬equals x nullLiteral
  value : ∀ l, l ≠ nullLiteral → ∃ x, equals x l

variable {Value : Type} (db : LiteralEquality Value)

namespace MutationStatement

def Affects (s : MutationStatement) (row : Reference → Value) : Prop :=
  db.equals (row (reference s.condition.1)) s.condition.2

/-- The first part of an assigned name is the column. -/
def Assigns (s : MutationStatement) (field : String) : Prop :=
  ∃ e ∈ s.assigned, (reference e.1).head? = some field.toList

end MutationStatement

/-- The column of the field equals the value given for it. -/
def EqualsGiven (entries : List (String × Json)) (row : Reference → Value) (field : String) : Prop :=
  ∃ v l, Json.lookup field entries = some v ∧ valueToSqlLiteral v = .ok l ∧ db.equals (row [field.toList]) l

def nameTokens (name : String) : List Token :=
  joined (.symbol '.') ((reference name).map fun part => [.quoted .double part])

def equationTokens (e : String × Sql) : List Token := nameTokens e.1 ++ .op (lit "=") :: e.2.flatMap Piece.tokens

/-- Keywords, quoted names and literals. -/
def MutationStatement.tokens : MutationStatement → List Token
  | .update table set field value =>
    .word (lit "UPDATE") :: nameTokens table ++ .word (lit "SET") ::
      joined (.symbol ',') (set.map equationTokens) ++ .word (lit "WHERE") :: equationTokens (field, value)
  | .delete table field value =>
    .word (lit "DELETE") :: .word (lit "FROM") :: nameTokens table ++ .word (lit "WHERE") :: equationTokens (field, value)

/-- The statement affects the rows of the entity and no other, keeps the key, and each of its strings is read inside a
quoted name or a literal. -/
structure TouchesOneEntity (keyFields : List String) (entries : List (String × Json)) (s : MutationStatement) : Prop where
  affects : ∀ row, s.Affects db row ↔ ∀ field ∈ keyFields, EqualsGiven db entries row field
  keeps : ∀ field ∈ keyFields, ¬s.Assigns field
  quoted : lex wireRules (renderSql s.sql) = s.tokens

/-! ### Tokens -/

theorem lays_name (name : String) : Lays (quotePostgresIdentifier name) := by
  apply Lays.join rfl
  intro part hpart
  obtain ⟨cs, -, rfl⟩ := List.mem_map.mp hpart
  exact lays_piece (quoteIdentifier_lexes false .postgres cs).settles

theorem name_tokens (name : String) : (quotePostgresIdentifier name).flatMap Piece.tokens = nameTokens name := by
  have hpart : ∀ cs, Piece.tokens (.text (quote .double cs)) = [.quoted .double cs] :=
    fun cs => (quoteIdentifier_lexes false .postgres cs).tokens
  have hdot : Piece.tokens (.text (lit ".")) = [.symbol '.'] := rfl
  rw [quotePostgresIdentifier, joinSql, joined_flatMap hdot, List.map_map, nameTokens, reference]
  congr 1
  apply List.map_congr_left
  intro cs _
  simp only [Function.comp_apply, List.flatMap_cons, List.flatMap_nil, hpart, List.append_nil]

theorem lays_literal {v : Json} {l : Sql} (h : valueToSqlLiteral v = .ok l) : Lays l := by
  cases v with
  | null =>
    cases h
    exact lays_piece rfl
  | bool b =>
    cases h
    cases b <;> exact lays_piece rfl
  | num n =>
    cases h
    exact lays_piece (number_settles n)
  | str s =>
    cases h
    exact lays_piece trivial
  | _ => cases h

theorem lays_pairOf {sep : List Char} (hsep : separates wireRules sep = true) {a b : Sql} (ha : Lays a) (hb : Lays b) :
    Lays (a ++ .text sep :: b) := by
  have h : Lays (joinSql sep [a, b]) := Lays.join hsep (by simp [ha, hb])
  exact h

theorem lays_equation {e : String × Sql} (h : Lays e.2) : Lays (equation e) := lays_pairOf rfl (lays_name e.1) h

theorem equation_tokens (e : String × Sql) : (equation e).flatMap Piece.tokens = equationTokens e := by
  rw [equation, List.flatMap_append, name_tokens]
  rfl

variable {s : MutationStatement}

theorem quoted_of_lays (hset : ∀ e ∈ s.assigned, Lays e.2) (hvalue : Lays s.condition.2) :
    lex wireRules (renderSql s.sql) = s.tokens := by
  have hcondition := lays_equation hvalue
  cases s with
  | update table set field value =>
    have hassigned : Lays (joinSql (lit ", ") (set.map equation)) := by
      apply Lays.join rfl
      intro part hpart
      obtain ⟨e, he, rfl⟩ := List.mem_map.mp hpart
      exact lays_equation (hset e he)
    have hlays : Lays (MutationStatement.update table set field value).sql :=
      lays_pairOf rfl (lays_pairOf rfl (Lays.prefixed rfl (lays_name table)) hassigned) hcondition
    have hset : (joinSql (lit ", ") (set.map equation)).flatMap Piece.tokens =
        joined (.symbol ',') (set.map equationTokens) := by
      have hcomma : Piece.tokens (.text (lit ", ")) = [.symbol ','] := rfl
      rw [joinSql, joined_flatMap hcomma, List.map_map]
      exact congrArg _ (List.map_congr_left fun e _ => equation_tokens e)
    rw [hlays.lex_eq]
    simp only [MutationStatement.sql, List.flatMap_append, List.flatMap_cons, name_tokens, hset, equation_tokens]
    rfl
  | delete table field value =>
    have hlays : Lays (MutationStatement.delete table field value).sql :=
      lays_pairOf rfl (Lays.prefixed rfl (lays_name table)) hcondition
    rw [hlays.lex_eq]
    simp only [MutationStatement.sql, List.flatMap_append, List.flatMap_cons, name_tokens, equation_tokens]
    rfl

/-! ### When one entity is touched -/

/-- No literal is made of it. -/
def IsCompound (v : Json) : Prop := ∀ l, valueToSqlLiteral v ≠ .ok l

/-- The first key field has no value that a literal is made of. -/
def Refused (k : String) (entries : List (String × Json)) : Prop := ∀ v, Json.lookup k entries = some v → IsCompound v

/-- The first key field chooses the rows of the entity: its value is null, or its name has no dot and no other field is
in the key. -/
def Chooses (k : String) (ks : List String) (entries : List (String × Json)) : Prop :=
  (∃ v, Json.lookup k entries = some v ∧ valueToSqlLiteral v = .ok nullLiteral) ∨ reference k = [k.toList] ∧ ∀ k' ∈ ks, k' = k

/-- The variables have no entry beside the first key field, or one that no literal is made of, or the key field chooses
the rows and no other entry is named like a key field up to its first dot. -/
def UpdateMeets (k : String) (ks : List String) (entries : List (String × Json)) : Prop :=
  (∀ e ∈ entries, e.1 = k) ∨ (∃ e ∈ entries, e.1 ≠ k ∧ IsCompound e.2) ∨
    Chooses k ks entries ∧ ∀ e ∈ entries, e.1 ≠ k → ∀ k' ∈ k :: ks, (reference e.1).head? ≠ some k'.toList

variable {k : String} {ks : List String} {entries : List (String × Json)}

theorem mapError_some_eq_ok {α : Type} {x : Except FraiseQLError α} {a : α} : x.mapError some = .ok a ↔ x = .ok a := by
  cases x <;> simp [Except.mapError]

variable {set : List (String × Sql)}

theorem setClauses_ok (h : ∀ e ∈ entries, e.1 ≠ k → ¬IsCompound e.2) : ∃ set, setClauses k entries = .ok set := by
  refine ⟨_, mapM_of_forall (g := fun e => (e.1, (valueToSqlLiteral e.2).toOption.getD [])) fun e he => ?_⟩
  rw [List.mem_filter, decide_eq_true_eq] at he
  obtain ⟨l, hl⟩ : ∃ l, valueToSqlLiteral e.2 = .ok l := by simpa [IsCompound] using h e he.1 he.2
  rw [hl]
  rfl

theorem entry_of_setClauses (h : setClauses k entries = .ok set) {a : String × Sql} (ha : a ∈ set) :
    ∃ e ∈ entries, e.1 ≠ k ∧ a.1 = e.1 ∧ valueToSqlLiteral e.2 = .ok a.2 := by
  obtain ⟨e, he, hmap⟩ := forall₂_mem (mapM_forall₂ h) ha
  rw [List.mem_filter, decide_eq_true_eq] at he
  obtain ⟨l, hl, rfl⟩ := map_eq_ok.mp hmap
  exact ⟨e, he.1, he.2, rfl, hl⟩

theorem clause_of_entry (h : setClauses k entries = .ok set) {e : String × Json} (he : e ∈ entries) (hother : e.1 ≠ k) :
    ¬IsCompound e.2 ∧ ∃ a ∈ set, a.1 = e.1 := by
  have hkept : e ∈ entries.filter fun e => e.1 ≠ k := List.mem_filter.mpr ⟨he, decide_eq_true hother⟩
  obtain ⟨a, ha, hmap⟩ := forall₂_mem (mapM_forall₂ h).flip hkept
  obtain ⟨l, hl, rfl⟩ := map_eq_ok.mp hmap
  exact ⟨fun hcompound => hcompound l hl, _, ha, rfl⟩

open Classical in
theorem affects_iff {v : Json} {l : Sql} (hlookup : Json.lookup k entries = some v) (hl : valueToSqlLiteral v = .ok l) :
    (∀ row, db.equals (row (reference k)) l ↔ ∀ field ∈ k :: ks, EqualsGiven db entries row field) ↔
      Chooses k ks entries := by
  have hgiven : ∀ row, EqualsGiven db entries row k ↔ db.equals (row [k.toList]) l := by
    intro row
    constructor
    · rintro ⟨v', l', hv', hl', hequals⟩
      obtain rfl := Option.some.inj (hlookup.symm.trans hv')
      obtain rfl := Except.ok.inj (hl.symm.trans hl')
      exact hequals
    · exact fun hequals => ⟨v, l, hlookup, hl, hequals⟩
  constructor
  · intro hall
    by_cases hnull : l = nullLiteral
    · exact .inl ⟨v, hlookup, hnull ▸ hl⟩
    -- a row that equals the literal where the statement looks and nothing elsewhere
    obtain ⟨x, hx⟩ := db.value l hnull
    have hfields := (hall fun r => if r = reference k then x else db.null).mp (by simpa using hx)
    have hsame : ∀ k' ∈ k :: ks, [k'.toList] = reference k := by
      intro k' hk'
      obtain ⟨_, l', -, -, hequals⟩ := hfields k' hk'
      by_contra hne
      simp only [if_neg hne] at hequals
      exact db.null_left l' hequals
    have hself := hsame k List.mem_cons_self
    refine .inr ⟨hself.symm, ?_⟩
    intro k' hk'
    have heq := (hsame k' (List.mem_cons_of_mem _ hk')).trans hself.symm
    exact String.toList_injective (List.cons.inj heq).1
  · rintro (⟨v', hv', hl'⟩ | ⟨hself, honly⟩) row
    · obtain rfl := Option.some.inj (hlookup.symm.trans hv')
      obtain rfl := Except.ok.inj (hl.symm.trans hl')
      constructor
      · exact fun hequals => absurd hequals (db.null_right _)
      · exact fun hfields => absurd ((hgiven row).mp (hfields k List.mem_cons_self)) (db.null_right _)
    · rw [hself, ← hgiven row]
      constructor
      · intro hequals field hfield
        rcases List.mem_cons.mp hfield with rfl | hfield
        · exact hequals
        · rw [honly field hfield]
          exact hequals
      · exact fun hfields => hfields k List.mem_cons_self

section Results

variable (toLowercase : String → String) {typename : String} {metadata : FederationMetadata} {t : FederatedType}
  {key : KeyDirective} (htype : findFederationType typename metadata = .ok t) (hkey : getKeyDirective t = .ok key)
  (hfields : key.fields = k :: ks) (entries : List (String × Json))

include htype hkey hfields in
theorem keyOfVariables_ok {r : String × List (String × Json) × Json} :
    keyOfVariables typename (.obj entries) metadata = .ok r ↔
      ∃ v, Json.lookup k entries = some v ∧ r = (k, entries, v) := by
  simp only [keyOfVariables, htype, hkey, hfields, Except.mapError, ok_bind, List.head?_cons, Json.asObject?]
  cases Json.lookup k entries with
  | none => simp
  | some v => simp [eq_comm]

include htype hkey hfields in
theorem buildDelete_ok :
    buildDeleteQuery toLowercase typename (.obj entries) metadata = .ok s ↔ ∃ v l, Json.lookup k entries = some v ∧
      valueToSqlLiteral v = .ok l ∧ s = .delete (toLowercase typename) k l := by
  simp only [buildDeleteQuery, bind_eq_ok, keyOfVariables_ok htype hkey hfields, mapError_some_eq_ok, pure_eq_ok]
  constructor
  · rintro ⟨_, ⟨v, hv, rfl⟩, l, hl, rfl⟩
    exact ⟨v, l, hv, hl, rfl⟩
  · rintro ⟨v, l, hv, hl, rfl⟩
    exact ⟨_, ⟨v, hv, rfl⟩, l, hl, rfl⟩

include htype hkey hfields in
theorem buildUpdate_ok :
    buildUpdateQuery toLowercase typename (.obj entries) metadata = .ok s ↔ ∃ v l set, Json.lookup k entries = some v ∧
      valueToSqlLiteral v = .ok l ∧ setClauses k entries = .ok set ∧ set ≠ [] ∧
      s = .update (toLowercase typename) set k l := by
  simp only [buildUpdateQuery, bind_eq_ok, keyOfVariables_ok htype hkey hfields, mapError_some_eq_ok]
  constructor
  · rintro ⟨_, ⟨v, hv, rfl⟩, set, hset, h⟩
    split_ifs at h with hempty
    simp only [bind_eq_ok, mapError_some_eq_ok, pure_eq_ok] at h
    obtain ⟨l, hl, rfl⟩ := h
    exact ⟨v, l, set, hv, hl, hset, fun hnil => hempty (by rw [hnil]; rfl), rfl⟩
  · rintro ⟨v, l, set, hv, hl, hset, hne, rfl⟩
    refine ⟨_, ⟨v, hv, rfl⟩, set, hset, ?_⟩
    rw [if_neg (by simpa using hne), hl]
    rfl

include htype hkey hfields in
/-- A deletion fails or touches the entity exactly when the first key field has no literal or chooses its rows. An update
does so also when it has nothing to set or fails at what it sets, and otherwise may not name a key field either. -/
theorem mutation_touches_one_entity_iff :
    ((∀ s, buildDeleteQuery toLowercase typename (.obj entries) metadata = .ok s →
      TouchesOneEntity db key.fields entries s) ↔ Refused k entries ∨ Chooses k ks entries) ∧
    ((∀ s, buildUpdateQuery toLowercase typename (.obj entries) metadata = .ok s →
      TouchesOneEntity db key.fields entries s) ↔ Refused k entries ∨ UpdateMeets k ks entries) := by
  simp only [buildDelete_ok toLowercase htype hkey hfields, buildUpdate_ok toLowercase htype hkey hfields, hfields]
  have hliteral : Refused k entries ∨ ∃ v l, Json.lookup k entries = some v ∧ valueToSqlLiteral v = .ok l := by
    by_cases hrefused : Refused k entries
    · exact .inl hrefused
    · simp only [Refused, IsCompound, not_forall, not_not] at hrefused
      obtain ⟨v, hv, l, hl⟩ := hrefused
      exact .inr ⟨v, l, hv, hl⟩
  constructor
  · constructor
    · intro hall
      refine hliteral.imp_right fun ⟨v, l, hv, hl⟩ => ?_
      exact (affects_iff db hv hl).mp (hall _ ⟨v, l, hv, hl, rfl⟩).affects
    · rintro hmeets s ⟨v, l, hv, hl, rfl⟩
      have hchooses := hmeets.resolve_left fun hrefused => hrefused v hv l hl
      exact ⟨(affects_iff db hv hl).mpr hchooses, fun _ _ ⟨_, he, _⟩ => (nomatch he),
        quoted_of_lays nofun (lays_literal hl)⟩
  · constructor
    · intro hall
      refine hliteral.imp_right fun ⟨v, l, hv, hl⟩ => ?_
      by_cases hempty : ∀ e ∈ entries, e.1 = k
      · exact .inl hempty
      by_cases hcompound : ∃ e ∈ entries, e.1 ≠ k ∧ IsCompound e.2
      · exact .inr (.inl hcompound)
      obtain ⟨set, hset⟩ := setClauses_ok fun e he hother h => hcompound ⟨e, he, hother, h⟩
      have hne : set ≠ [] := by
        rintro rfl
        simp only [not_forall] at hempty
        obtain ⟨e, he, hother⟩ := hempty
        obtain ⟨-, a, ha, -⟩ := clause_of_entry hset he hother
        cases ha
      have htouches := hall _ ⟨v, l, set, hv, hl, hset, hne, rfl⟩
      refine .inr (.inr ⟨(affects_iff db hv hl).mp htouches.affects, ?_⟩)
      intro e he hother k' hk' hhead
      obtain ⟨-, a, ha, hname⟩ := clause_of_entry hset he hother
      exact htouches.keeps k' hk' ⟨a, ha, by rw [hname]; exact hhead⟩
    · rintro hmeets s ⟨v, l, set, hv, hl, hset, hne, rfl⟩
      rcases hmeets with hrefused | hempty | ⟨e, he, hother, hcompound⟩ | ⟨hchooses, hnames⟩
      · exact absurd hl (hrefused v hv l)
      · obtain ⟨a, ha⟩ := List.exists_mem_of_ne_nil set hne
        obtain ⟨e, he, hother, -⟩ := entry_of_setClauses hset ha
        exact absurd (hempty e he) hother
      · exact absurd hcompound (clause_of_entry hset he hother).1
      · refine ⟨(affects_iff db hv hl).mpr hchooses, ?_, quoted_of_lays ?_ (lays_literal hl)⟩
        · rintro k' hk' ⟨a, ha, hhead⟩
          obtain ⟨e, he, hother, hname, -⟩ := entry_of_setClauses hset ha
          exact hnames e he hother k' hk' (by rw [← hname]; exact hhead)
        · intro a ha
          obtain ⟨e, -, -, -, hl'⟩ := entry_of_setClauses hset ha
          exact lays_literal hl'

end Results

/-- Values that are literals, equal to themselves. -/
def plainEquality : LiteralEquality Sql where
  equals x l := x = l ∧ l ≠ nullLiteral
  null := nullLiteral
  null_left _ h := h.2 h.1.symm
  null_right _ h := h.2 rfl
  value l hne := ⟨l, rfl, hne⟩

def teams (fields : List String) : FederationMetadata := [⟨"Team", [⟨fields⟩]⟩]

/-- A key of one field. -/
theorem team_renamed_alone :
    ∃ s, buildUpdateQuery id "Team" (.obj [("id", .str "7"), ("name", .str "Ada")]) (teams ["id"]) = .ok s ∧
      TouchesOneEntity plainEquality ["id"] [("id", .str "7"), ("name", .str "Ada")] s := by
  have htype : findFederationType "Team" (teams ["id"]) = .ok ⟨"Team", [⟨["id"]⟩]⟩ := rfl
  have hmeets : UpdateMeets "id" [] [("id", .str "7"), ("name", .str "Ada")] := by
    refine .inr (.inr ⟨.inr ⟨?_, nofun⟩, ?_⟩)
    · decide
    · decide
  exact ⟨_, rfl, (mutation_touches_one_entity_iff plainEquality id htype rfl rfl _).2.mpr (.inr hmeets) _ rfl⟩

end FraiseQL.Federation
