import FraiseQL.JsonText
import FraiseQL.WhereAgreement
import FraiseQL.WhereInlining

/-! The two WHERE generators of PostgreSQL on whole clauses. Where every condition is worth the same in both, so is the
clause; the converse holds for a condition, but not for a clause, which may be worth the same all the same. -/

namespace FraiseQL.WherePredicates

open SqlLex PostgresPredicate Option
open SqlLike (likeMatch sameKey dangling)
open WhereGenerator (Formula)

/-! ### Clauses -/

section

variable (pg : Postgres)

/-- Both generators name the same column, and the cast is the one the column stands for. -/
def nativeAlike (column : String) (pgCast : PgCast) (value : Json) : Prop :=
  ('"' ∉ column.toList ∧ '\'' ∉ column.toList) ∧
    (pgCast = .none ∨ pg.columnType (genericIdentifier column) = pgCast ∧ CastAlike pgCast (literalOf value))

mutual

/-- Every condition is written and read alike. -/
def Alike : WhereClause → Prop
  | .field path op value => ∀ kind, kindOf op = some kind → kindAlike pg path kind value
  | .and clauses | .or clauses => AlikeAll clauses
  | .not clause => Alike clause
  | .nativeField column pgCast _ value => nativeAlike pg column pgCast value

def AlikeAll : List WhereClause → Prop
  | [] => True
  | clause :: clauses => Alike clause ∧ AlikeAll clauses

end

/-- The two predicates of a clause have the same truth value on every document. -/
def SameVerdicts (clause : WhereClause) : Prop :=
  ∀ F G, wireOf clause = some F → genericOf clause = some G →
    ∀ document, verdictOf (pg.verdict document) F = verdictOf (pg.verdict document) G

theorem doubled_eq_self {q : Quote} {content : List Char} (h : q.closer ∉ content) : doubled q content = content := by
  induction content with
  | nil => rfl
  | cons c content ih =>
    obtain ⟨hc, hrest⟩ := not_or.mp (List.mem_cons.not.mp h)
    rw [doubled_cons_of_ne (Ne.symm hc), ih hrest]

theorem native_agree {column : String} {pgCast : PgCast} {value : Json} {v : Literal} (op : CompareOp)
    (hv : scalarLiteral value = some v) (h : nativeAlike pg column pgCast value) (document : Json) :
    pg.verdict document (.native (wireIdentifier column) op v .none) =
      pg.verdict document (.native (genericIdentifier column) op (literalOf value) pgCast) := by
  obtain ⟨⟨hdouble, hsingle⟩, hcast⟩ := h
  have hcolumn : wireIdentifier column = genericIdentifier column := by
    rw [wireIdentifier, genericIdentifier, quote, doubled_eq_self hsingle, doubled_eq_self hdouble]
    rfl
  rw [literalOf_scalar hv] at hcast ⊢
  rw [Postgres.verdict, Postgres.verdict, if_pos rfl, hcolumn]
  by_cases hnone : pgCast = .none
  · rw [if_pos hnone]
  · obtain ⟨rfl, halike⟩ := hcast.resolve_left hnone
    rw [if_neg hnone]
    exact pg.compareColumn_cast _ op v halike

theorem field_agree_alike {path : List String} {op : WhereOperator} {value : Json} {F G : Formula Predicate}
    (hF : wireOf (.field path op value) = some F) (hG : genericOf (.field path op value) = some G) :
    (∀ document, verdictOf (pg.verdict document) F = verdictOf (pg.verdict document) G) ↔ Alike pg (.field path op value) := by
  obtain ⟨kind, hkind, hF⟩ := bind_eq_some_iff.mp hF
  obtain ⟨p, hp, rfl⟩ := map_eq_some_iff.mp hF
  rw [genericOf, hkind, bind_some] at hG
  refine (field_agree_iff pg hp hG).trans ?_
  rw [Alike, hkind]
  simp

mutual

theorem agree_of_alike : ∀ (clause : WhereClause) {F G : Formula Predicate}, Alike pg clause → wireOf clause = some F →
    genericOf clause = some G → ∀ document, verdictOf (pg.verdict document) F = verdictOf (pg.verdict document) G
  | .field path op value, F, G, halike, hF, hG => (field_agree_alike pg hF hG).mpr halike
  | .nativeField column pgCast op value, F, G, halike, hF, hG => by
    obtain ⟨compare, hcompare, hF⟩ := bind_eq_some_iff.mp hF
    obtain ⟨v, hv, rfl⟩ := map_eq_some_iff.mp hF
    rw [genericOf, hcompare] at hG
    obtain rfl := some.inj hG
    exact native_agree pg compare hv halike
  | .and clauses, F, G, halike, hF, hG => by
    obtain ⟨Fs, hFs, rfl⟩ := map_eq_some_iff.mp hF
    obtain ⟨Gs, hGs, rfl⟩ := map_eq_some_iff.mp hG
    exact fun document => (agree_of_alikeAll clauses halike hFs hGs document).1
  | .or clauses, F, G, halike, hF, hG => by
    obtain ⟨Fs, hFs, rfl⟩ := map_eq_some_iff.mp hF
    obtain ⟨Gs, hGs, rfl⟩ := map_eq_some_iff.mp hG
    exact fun document => (agree_of_alikeAll clauses halike hFs hGs document).2
  | .not clause, F, G, halike, hF, hG => by
    obtain ⟨F', hF', rfl⟩ := map_eq_some_iff.mp hF
    obtain ⟨G', hG', rfl⟩ := map_eq_some_iff.mp hG
    intro document
    rw [verdictOf, verdictOf, agree_of_alike clause halike hF' hG' document]

theorem agree_of_alikeAll : ∀ (clauses : List WhereClause) {Fs Gs : List (Formula Predicate)}, AlikeAll pg clauses →
    wireAll clauses = some Fs → genericAll clauses = some Gs → ∀ document,
      verdictOfAll (pg.verdict document) Fs = verdictOfAll (pg.verdict document) Gs ∧
        verdictOfAny (pg.verdict document) Fs = verdictOfAny (pg.verdict document) Gs
  | [], Fs, Gs, _, hFs, hGs => by
    obtain rfl := some.inj hFs
    obtain rfl := some.inj hGs
    exact fun _ => ⟨rfl, rfl⟩
  | clause :: clauses, Fs, Gs, halike, hFs, hGs => by
    obtain ⟨F, hF, hFs⟩ := bind_eq_some_iff.mp hFs
    obtain ⟨Fs', hFs', rfl⟩ := map_eq_some_iff.mp hFs
    obtain ⟨G, hG, hGs⟩ := bind_eq_some_iff.mp hGs
    obtain ⟨Gs', hGs', rfl⟩ := map_eq_some_iff.mp hGs
    intro document
    have hfirst := agree_of_alike clause halike.1 hF hG document
    obtain ⟨hall, hany⟩ := agree_of_alikeAll clauses halike.2 hFs' hGs' document
    rw [verdictOfAll, verdictOfAll, verdictOfAny, verdictOfAny, hfirst, hall, hany]
    exact ⟨rfl, rfl⟩

end

/-- The texts of both generators are those of two formulas, which have the same truth value on every document where
every condition is written and read alike; for a single condition this is exact. -/
theorem generators_agree_iff {clause : WhereClause} {wire generic : String} {params : List Json}
    (hwire : WhereSqlGenerator.toSql clause = .ok wire)
    (hgeneric : WhereGenerator.generate (WhereGenerator.new .postgres) clause = .ok (generic, params)) :
    (∃ F G pieces, wireOf clause = some F ∧ genericOf clause = some G ∧ wire.toList = renderParts (formulaParts F) ∧
      generic = String.ofList (WhereGenerator.renderSql (WhereGenerator.new .postgres) pieces) ∧
      inlineSql params pieces = renderParts (formulaParts G)) ∧
      (Alike pg clause → SameVerdicts pg clause) ∧
      ∀ path op value, clause = .field path op value → (SameVerdicts pg clause ↔ Alike pg clause) := by
  have htexts := generators_texts hwire hgeneric
  refine ⟨htexts, fun halike F G hF hG => agree_of_alike pg clause halike hF hG, ?_⟩
  rintro path op value rfl
  obtain ⟨F, G, -, hF, hG, -⟩ := htexts
  rw [← field_agree_alike pg hF hG]
  constructor
  · exact fun hagree => hagree F G hF hG
  · intro hsame F' G' hF' hG'
    obtain rfl := some.inj (hF.symm.trans hF')
    obtain rfl := some.inj (hG.symm.trans hG')
    exact hsame

end

/-! ### A database -/

def compareBy {α : Type} [DecidableEq α] (less : α → α → Bool) : CompareOp → α → α → Bool
  | .eq, a, b => decide (a = b)
  | .neq, a, b => decide (a ≠ b)
  | .gt, a, b => less b a
  | .gte, a, b => !less a b
  | .lt, a, b => less a b
  | .lte, a, b => !less b a

def digitsValue (digits : List Char) : Option Nat :=
  if digits ≠ [] ∧ digits.all Char.isDigit then some (Nat.ofDigitChars 10 digits 0) else none

/-- Texts by their characters, JSON and numbers by their texts, patterns of ASCII letters, and no column beside the
document. -/
def asciiPostgres : Postgres where
  Numeric := List Char
  numericOf s := if s ≠ [] ∧ s.all isNumberChar then some s else none
  jsonbNumeric
    | .num n => some (Json.numberText n).toList
    | _ => none
  compareNumeric := compareBy fun a b => decide (a < b)
  booleanOf s := if s = lit "true" then some true else if s = lit "false" then some false else none
  jsonbBoolean
    | .bool b => some b
    | _ => none
  compareBoolean := compareBy fun a b => !a && b
  jsonbOf s := if s = lit "null" then some .null else none
  compareJsonb op a b := compareBy (fun a b => decide (a < b)) op a.text b.text
  containsJsonb a b := decide (a.text = b.text)
  textOf value := value.text.toList
  compareText := compareBy fun a b => decide (a < b)
  lower := Char.toLower
  like insensitive p t :=
    if dangling '\\' false p then none
    else some (likeMatch (sameKey (if insensitive then Char.toLower else id)) (some '\\') p t)
  regex _ p t := some (t.tails.any fun u => p.isPrefixOf u)
  arrayOf s := some ((s.tail.dropLast.splitOn ',').map fun element => some (String.ofList element))
  indexOf s :=
    match s.toList with
    | '-' :: digits => (digitsValue digits).map fun n => -(n : Int)
    | digits => (digitsValue digits).map fun n => (n : Int)
  columnType _ := .none
  compareColumn _ _ _ := some none
  compareColumnCast _ _ _ _ := some none
  lower_special z hz := LikeLiteral.toLower_special z (by
    simp only [List.mem_cons, List.not_mem_nil, or_false] at hz
    rcases hz with rfl | rfl | rfl <;> decide)
  like_eq insensitive p t h := if_neg (by simp [h])
  like_dangling insensitive p t h := by simp [h]
  numericOf_number n := by
    rw [if_pos ⟨Json.numberText_ne_nil n, List.all_eq_true.mpr (Json.isNumberChar_numberText n)⟩]
    rfl
  numericOf_word := rfl
  jsonbNumeric_number _ := rfl
  jsonbNumeric_string _ := rfl
  booleanOf_true := rfl
  jsonbBoolean_bool _ := rfl
  compareColumn_cast _ _ _ _ := rfl

/-- A status and a city. -/
theorem status_and_city_agree :
    SameVerdicts asciiPostgres (.and [.field ["status"] .eq (.str "active"),
      .not (.field ["address", "city"] .contains (.str "Par"))]) := by
  have hwire : WhereSqlGenerator.toSql (.and [.field ["status"] .eq (.str "active"),
      .not (.field ["address", "city"] .contains (.str "Par"))]) = .ok _ := rfl
  refine (generators_agree_iff asciiPostgres hwire rfl).2.1 ⟨?_, ?_, trivial⟩
  · intro kind hkind
    obtain rfl := some.inj hkind
    exact .inl (Nat.le_refl 1)
  · intro kind hkind
    obtain rfl := some.inj hkind
    exact .inr ⟨.inr ⟨by decide +kernel, by decide +kernel⟩, by simp⟩

/-- A percent sign in a value is a wildcard in one generator only. -/
theorem percent_disagrees : ¬∀ (pg : Postgres) (clause : WhereClause) (wire generic : String) (params : List Json),
    WhereSqlGenerator.toSql clause = .ok wire →
    WhereGenerator.generate (WhereGenerator.new .postgres) clause = .ok (generic, params) → SameVerdicts pg clause := by
  intro hall
  have hagree := hall asciiPostgres (.field ["discount"] .contains (.str "50%")) _ _ _ rfl rfl _ _ rfl rfl
    (.obj [("discount", .str "500")])
  revert hagree
  decide +kernel

end FraiseQL.WherePredicates
