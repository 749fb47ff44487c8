import FraiseQL.AggregateFilterAgreement
import FraiseQL.SqlLikeSets

/-! What the pattern operators select (`Contains`, `Startswith`, `Endswith` and their relatives that ignore case). The
generator escapes the value with backslashes for every database and concatenates wildcards to it in SQL. The template
it renders is read back as a LIKE predicate and evaluated with the rules of the database: SQLite and SQL Server have no
escape character without an ESCAPE clause, and SQL Server has sets in brackets. -/

namespace FraiseQL.LikeLiteral

open SqlLex WhereGenerator Dialect SqlLike List
open Aggregate.SqlGenerator (likeEscape patternText patternSql likeTemplate escapeLikeLiteral_toList)

/-! ### Predicates -/

/-- How a predicate compares its text with its pattern. -/
inductive Comparison where
  | like
  | ilike
  /-- both sides in LOWER -/
  | lowered
  | collate (name : List Char)
  deriving DecidableEq

/-- A comparison of the field with a concatenation of wildcards, where `true` stands, and the bound text. -/
structure LikePredicate where
  comparison : Comparison
  wild : List Bool
  deriving DecidableEq

def readPart : Frag → Option Bool
  | .text cs => if cs = lit "'%'" then some true else none
  | .hole (.param 0) => some false
  | .hole _ => none

/-- Parts with an operator between them. -/
def readParts (sep : List Char) : Template → Option (List Bool)
  | [part] => (readPart part).map ([·])
  | part :: .text cs :: parts =>
    if cs = sep then (readPart part).bind fun w => (readParts sep parts).map (w :: ·) else none
  | _ => none

/-- A template that ends in a text, and the text. -/
def splitLast (t : Template) : Option (Template × List Char) :=
  match t.getLast? with
  | some (.text cs) => some (t.dropLast, cs)
  | _ => none

def readConcat (d : Dialect) (t : Template) : Option (List Bool) :=
  match d with
  | .mysql =>
    match t with
    | .text cs :: rest =>
      (splitLast rest).bind fun (parts, close) =>
        if cs = lit "CONCAT(" ∧ close = lit ")" then readParts (lit ", ") parts else none
    | _ => none
  | .sqlserver => readParts (lit " + ") t
  | _ => readParts (lit " || ") t

def readPredicate (d : Dialect) : Template → Option LikePredicate
  | .hole .field :: .text op :: rest =>
    if op = lit " ILIKE " then (readConcat d rest).map (⟨.ilike, ·⟩)
    else if op = lit " LIKE " then
      match splitLast rest with
      | some (parts, last) =>
        if last.take 9 = lit " COLLATE " then (readConcat d parts).map (⟨.collate (last.drop 9), ·⟩)
        else (readConcat d rest).map (⟨.like, ·⟩)
      | none => (readConcat d rest).map (⟨.like, ·⟩)
    else none
  | .text before :: .hole .field :: .text op :: rest =>
    (splitLast rest).bind fun (parts, close) =>
      if before = lit "LOWER(" ∧ op = lit ") LIKE LOWER(" ∧ close = lit ")" then
        (readConcat d parts).map (⟨.lowered, ·⟩)
      else none
  | _ => none

/-! ### The databases -/

/-- The characters that mean something in a pattern or after an escape. -/
def specials : List Char := ['\\', '%', '_', '[', ']']

/-- What a database decides. A comparison of characters is given by a key. -/
structure LikeRules where
  /-- whether MySQL takes backslashes for escapes -/
  backslash : Bool
  /-- LOWER, and what ILIKE goes by -/
  lower : Char → Char
  /-- the collation of a text MySQL extracts -/
  column : Char → Char
  /-- the collations of SQL Server -/
  collation : List Char → Char → Char
  /-- what a set in brackets holds -/
  member : List Char → Char → Bool
  lower_special : ∀ z ∈ specials, ∀ c, lower c = z ↔ c = z
  insensitive : ∀ c x, lower c = lower x →
    collation (lit "Latin1_General_CI_AI") c = collation (lit "Latin1_General_CI_AI") x

section Rules

variable (rules : LikeRules)

/-- How LIKE alone compares; in SQLite it takes the two cases of an ASCII letter for the same. -/
def likeKey : Dialect → Char → Char
  | .mysql => rules.column
  | .sqlite => Char.toLower
  | _ => id

/-- LIKE without an ESCAPE clause. -/
def like (d : Dialect) (key : Char → Char) (p t : List Char) : Bool :=
  match d with
  | .sqlserver => setMatch (sameKey key) rules.member true p t
  | d => likeMatch (sameKey key) (likeEscape rules.backslash d) p t

/-- Whether a predicate holds of a text. -/
def LikePredicate.holds (d : Dialect) (pred : LikePredicate) (bound t : List Char) : Bool :=
  let p := patternText pred.wild bound
  match pred.comparison with
  | .like => like rules d (likeKey rules d) p t
  | .ilike => like rules d rules.lower p t
  | .lowered => like rules d (likeKey rules d) (p.map rules.lower) (t.map rules.lower)
  | .collate name => like rules d (rules.collation name) p t

/-- Whether the condition generated for an operator and a value holds of the text of the field. -/
def selects (d : Dialect) (op : WhereOperator) (v : String) (t : List Char) : Bool :=
  match conditionOf op (.str v) d with
  | .ok ([.str bound], template) => (readPredicate d template).any fun pred => pred.holds rules d bound.toList t
  | _ => false

end Rules

/-! ### What is asked for -/

inductive Place where
  | contains
  | startswith
  | endswith

def operatorOf : Bool → Place → WhereOperator
  | false, .contains => .contains
  | false, .startswith => .startswith
  | false, .endswith => .endswith
  | true, .contains => .icontains
  | true, .startswith => .istartswith
  | true, .endswith => .iendswith

/-- Whether the value is where it should be, up to case for the operators that ignore it. -/
def Asked (rules : LikeRules) (insensitive : Bool) (place : Place) (v : String) (t : List Char) : Prop :=
  let key := if insensitive then rules.lower else id
  match place with
  | .contains => v.toList.map key <:+: t.map key
  | .startswith => v.toList.map key <+: t.map key
  | .endswith => v.toList.map key <:+ t.map key

/-- How the generated condition compares characters. -/
def comparedKey (rules : LikeRules) (insensitive : Bool) : Dialect → Char → Char
  | .postgres => if insensitive then rules.lower else id
  | .mysql => if insensitive then rules.column ∘ rules.lower else rules.column
  | .sqlite => if insensitive then Char.toLower ∘ rules.lower else Char.toLower
  | .sqlserver => rules.collation (if insensitive then lit "Latin1_General_CI_AI" else lit "Latin1_General_CS_AS")

/-- The value means itself: the database knows the escapes or there is nothing to escape, and it tells the characters
of the value from the others as the operator does. -/
structure MeansItself (rules : LikeRules) (d : Dialect) (insensitive : Bool) (v : String) : Prop where
  wildcards : likeEscape rules.backslash d = some '\\' ∨
    ∀ c ∈ v.toList, c ≠ '\\' ∧ c ≠ '%' ∧ c ≠ '_' ∧ (d = .sqlserver → c ≠ '[')
  letters : ∀ c ∈ v.toList, ∀ x, comparedKey rules insensitive d c = comparedKey rules insensitive d x →
    (if insensitive then rules.lower else id) c = (if insensitive then rules.lower else id) x

/-! ### The generated predicate -/

section Generated

variable (rules : LikeRules)

def Place.before : Place → Bool
  | .startswith => false
  | _ => true

def Place.after : Place → Bool
  | .endswith => false
  | _ => true

/-- The predicate of an operator. -/
def predicateOf (d : Dialect) (insensitive : Bool) (place : Place) : LikePredicate where
  comparison :=
    match d, insensitive with
    | .sqlserver, false => .collate (lit "Latin1_General_CS_AS")
    | .sqlserver, true => .collate (lit "Latin1_General_CI_AI")
    | _, false => .like
    | .postgres, true => .ilike
    | _, true => .lowered
  wild :=
    match place with
    | .contains => [true, false, true]
    | .startswith => [false, true]
    | .endswith => [true, false]

/-- The template of an operator. -/
def templateOf (d : Dialect) (insensitive : Bool) (place : Place) : Template :=
  likeTemplate insensitive (patternSql (predicateOf d insensitive place).wild d) d

variable (d : Dialect) (insensitive : Bool) (place : Place) (v : String)

theorem conditionOf_eq :
    conditionOf (operatorOf insensitive place) (.str v) d =
      .ok ([.str (escapeLikeLiteral v)], templateOf d insensitive place) := by
  cases insensitive <;> cases place <;> rfl

theorem readPredicate_templateOf :
    readPredicate d (templateOf d insensitive place) = some (predicateOf d insensitive place) := by
  cases d <;> cases insensitive <;> cases place <;> decide +kernel

theorem selects_eq (t : List Char) :
    selects rules d (operatorOf insensitive place) v t =
      (predicateOf d insensitive place).holds rules d (escapeLikeLiteral v).toList t := by
  rw [selects, conditionOf_eq]
  show (readPredicate d (templateOf d insensitive place)).any _ = _
  rw [readPredicate_templateOf, Option.any_some]

theorem patternText_eq (w : List Char) :
    patternText (predicateOf d insensitive place).wild w = wildText place.before place.after w := by
  cases place with
  | contains => rfl
  | startswith => rfl
  | endswith => exact congrArg ('%' :: ·) rfl

theorem likeEscape_cases (backslash : Bool) (d : Dialect) :
    likeEscape backslash d = none ∨ likeEscape backslash d = some '\\' := by
  cases d <;> cases backslash <;> simp [likeEscape]

theorem lower_iff {z : Char} (hz : z ∈ specials) (c : Char) : rules.lower c = z ↔ c = z :=
  rules.lower_special z hz c

/-- LOWER on both sides is a comparison by the lower-case letters. -/
theorem like_lowered {d : Dialect} (hd : d ≠ .sqlserver) (key : Char → Char) (p t : List Char) :
    like rules d key (p.map rules.lower) (t.map rules.lower) = like rules d (key ∘ rules.lower) p t := by
  have hescape : ∀ c, likeEscape rules.backslash d = some (rules.lower c) ↔ likeEscape rules.backslash d = some c := by
    intro c
    rcases likeEscape_cases rules.backslash d with h | h
    · simp [h]
    · rw [h, Option.some.injEq, Option.some.injEq, eq_comm, lower_iff rules (by decide) c, eq_comm]
  have hmap : ∀ e : Option Char, e = likeEscape rules.backslash d →
      likeMatch (sameKey key) e (p.map rules.lower) (t.map rules.lower) =
        likeMatch (sameKey (key ∘ rules.lower)) e p t := by
    rintro e rfl
    exact matchFrom_map hescape (fun c => lower_iff rules (by decide) c) (fun c => lower_iff rules (by decide) c)
      false p t
  cases d with
  | sqlserver => exact absurd rfl hd
  | _ => exact hmap _ rfl

/-- A generated condition is a pattern of the escaped value, compared by one key. -/
theorem selects_iff (t : List Char) :
    selects rules d (operatorOf insensitive place) v t =
      like rules d (comparedKey rules insensitive d) (wildText place.before place.after (escaped '\\' v.toList)) t := by
  rw [selects_eq, escapeLikeLiteral_toList, LikePredicate.holds, patternText_eq]
  cases d with
  | sqlserver => cases insensitive <;> rfl
  | postgres => cases insensitive <;> rfl
  | mysql =>
    cases insensitive with
    | false => rfl
    | true => exact like_lowered rules (d := .mysql) nofun rules.column _ t
  | sqlite =>
    cases insensitive with
    | false => rfl
    | true => exact like_lowered rules (d := .sqlite) nofun Char.toLower _ t

/-- What the operator is asked for, with one way to compare. -/
theorem asked_iff (t : List Char) :
    Asked rules insensitive place v t ↔
      StandsIn place.before place.after (v.toList.map (if insensitive then rules.lower else id))
        (t.map (if insensitive then rules.lower else id)) := by
  cases place with
  | contains =>
    constructor
    · rintro ⟨pre, post, h⟩
      exact ⟨pre, post, by rw [← h, append_assoc], nofun, nofun⟩
    · rintro ⟨pre, post, h, -, -⟩
      exact ⟨pre, post, by rw [h, append_assoc]⟩
  | startswith =>
    constructor
    · rintro ⟨post, h⟩
      exact ⟨[], post, h.symm, fun _ => rfl, nofun⟩
    · rintro ⟨pre, post, h, hpre, -⟩
      obtain rfl := hpre rfl
      exact ⟨post, h.symm⟩
  | endswith =>
    constructor
    · rintro ⟨pre, h⟩
      exact ⟨pre, [], by rw [append_nil, h], nofun, fun _ => rfl⟩
    · rintro ⟨pre, post, h, -, hpost⟩
      obtain rfl := hpost rfl
      exact ⟨pre, by rw [h, append_nil]⟩

/-- Without an escape character LIKE is the one that knows sets, in SQL Server alone. -/
theorem like_none {d : Dialect} (hnone : likeEscape rules.backslash d = none) (key : Char → Char) (p t : List Char) :
    like rules d key p t = setMatch (sameKey key) rules.member (decide (d = .sqlserver)) p t := by
  have hplain : setMatch (sameKey key) rules.member false p = likeMatch (sameKey key) none p :=
    setMatch_plain _ _ (fun h => absurd h Bool.false_ne_true)
  cases d with
  | sqlserver => rfl
  | postgres => cases hnone
  | mysql =>
    show likeMatch (sameKey key) (likeEscape rules.backslash .mysql) p t = setMatch _ _ false p t
    rw [hplain, hnone]
  | sqlite =>
    show likeMatch (sameKey key) none p t = setMatch _ _ false p t
    rw [hplain]

/-- A value with nothing to escape, or for a database with the escape character, stands for itself. -/
theorem like_standsIn {d : Dialect} {v : List Char}
    (hwild : likeEscape rules.backslash d = some '\\' ∨
      ∀ c ∈ v, c ≠ '\\' ∧ c ≠ '%' ∧ c ≠ '_' ∧ (d = .sqlserver → c ≠ '['))
    (key : Char → Char) (before after : Bool) (t : List Char) :
    like rules d key (wildText before after (escaped '\\' v)) t = true ↔
      StandsIn before after (v.map key) (t.map key) := by
  by_cases hescape : likeEscape rules.backslash d = some '\\'
  · have hlike : like rules d key (wildText before after (escaped '\\' v)) t =
        likeMatch (sameKey key) (some '\\') (wildText before after (escaped '\\' v)) t := by
      cases d with
      | sqlserver => cases hescape
      | _ =>
        rw [← hescape]
        rfl
    rw [hlike]
    exact likeMatch_wildText key (by decide) (escaped_literal _ _ _) before after t
  · have hnone := (likeEscape_cases rules.backslash d).resolve_right hescape
    have hplain := hwild.resolve_left hescape
    have hself : escaped '\\' v = v := escaped_eq_self fun c hc => ⟨(hplain c hc).1, (hplain c hc).2.1, (hplain c hc).2.2.1⟩
    have hopen : decide (d = .sqlserver) = true → '[' ∉ wildText before after v := by
      intro hd hmem
      rw [← count_pos_iff, count_wildText (by decide), count_pos_iff] at hmem
      exact (hplain _ hmem).2.2.2 (of_decide_eq_true hd) rfl
    rw [hself, like_none rules hnone, setMatch_plain _ _ hopen]
    refine likeMatch_wildText key (show (none : Option Char) ≠ some '%' from nofun) (plain_literal _ _ ?_) before after t
    exact fun c hc => ⟨nofun, (hplain c hc).2.1, (hplain c hc).2.2.1⟩

/-- Characters that are asked for as the same are compared as the same. -/
theorem comparedKey_coarse (d : Dialect) (c x : Char)
    (h : (if insensitive then rules.lower else id) c = (if insensitive then rules.lower else id) x) :
    comparedKey rules insensitive d c = comparedKey rules insensitive d x := by
  cases insensitive with
  | false => rw [show c = x from h]
  | true =>
    have hlower : rules.lower c = rules.lower x := h
    cases d with
    | postgres => exact hlower
    | mysql => exact congrArg rules.column hlower
    | sqlite => exact congrArg Char.toLower hlower
    | sqlserver => exact rules.insensitive c x hlower

theorem special_of_ask : ∀ z ∈ ['\\', '[', ']'], ∀ c,
    (if insensitive then rules.lower else id) c = (if insensitive then rules.lower else id) z → c = z := by
  intro z hz c h
  cases insensitive with
  | false => exact h
  | true =>
    have hmem : z ∈ specials := by
      simp only [mem_cons, not_mem_nil, or_false] at hz
      rcases hz with rfl | rfl | rfl <;> decide
    have hself : rules.lower z = z := (lower_iff rules hmem z).mpr rfl
    exact (lower_iff rules hmem c).mp (h.trans hself)

end Generated

/-- The generated condition holds of exactly the texts that are asked for when the value means itself, and only
then. -/
theorem selects_asked_iff (rules : LikeRules) (d : Dialect) (insensitive : Bool) (place : Place) (v : String) :
    (∀ t, selects rules d (operatorOf insensitive place) v t = true ↔ Asked rules insensitive place v t) ↔
      MeansItself rules d insensitive v := by
  have htold := standsIn_iff_told (comparedKey_coarse rules insensitive d) place.before place.after v.toList
  constructor
  · intro hexact
    simp only [selects_iff, asked_iff] at hexact
    have hwild : likeEscape rules.backslash d = some '\\' ∨
        ∀ c ∈ v.toList, c ≠ '\\' ∧ c ≠ '%' ∧ c ≠ '_' ∧ (d = .sqlserver → c ≠ '[') := by
      rcases likeEscape_cases rules.backslash d with hnone | hescape
      · right
        simp only [like_none rules hnone] at hexact
        have hplain := plain_of_exact (special_of_ask rules insensitive) hexact
        exact fun c hc => ⟨(hplain c hc).1, (hplain c hc).2.1, (hplain c hc).2.2.1,
          fun hd => (hplain c hc).2.2.2 (decide_eq_true hd)⟩
      · exact .inl hescape
    refine ⟨hwild, htold.mp fun t => ?_⟩
    rw [← like_standsIn rules hwild]
    exact hexact t
  · rintro ⟨hwild, hletters⟩ t
    rw [selects_iff, asked_iff, like_standsIn rules hwild]
    exact htold.mpr hletters t

theorem toLower_special : ∀ z ∈ specials, ∀ c : Char, c.toLower = z ↔ c = z := by
  intro z hz c
  have hlower : ¬(97 ≤ z.val ∧ z.val ≤ 122) := by
    simp only [specials, mem_cons, not_mem_nil, or_false] at hz
    rcases hz with rfl | rfl | rfl | rfl | rfl <;> decide
  have hupper : ¬(65 ≤ z.val ∧ z.val ≤ 90) := by
    simp only [specials, mem_cons, not_mem_nil, or_false] at hz
    rcases hz with rfl | rfl | rfl | rfl | rfl <;> decide
  unfold Char.toLower
  split
  · next h =>
      constructor
      · rintro rfl
        refine absurd ?_ hlower
        show 97 ≤ c.val + 32 ∧ c.val + 32 ≤ 122
        have hlow := UInt32.le_iff_toNat_le.mp h.1
        have hhigh := UInt32.le_iff_toNat_le.mp h.2
        have hsum : (c.val + 32).toNat = c.val.toNat + 32 := by
          rw [UInt32.toNat_add]
          exact Nat.mod_eq_of_lt (by simp at hhigh ⊢; omega)
        rw [UInt32.le_iff_toNat_le, UInt32.le_iff_toNat_le, hsum]
        simp at hlow hhigh ⊢
        omega
      · rintro rfl
        exact absurd h hupper
  · rfl

/-- ASCII letters up to case. -/
def asciiRules : LikeRules where
  backslash := true
  lower := Char.toLower
  column := id
  collation name := if name = lit "Latin1_General_CI_AI" then Char.toLower else id
  member content c := content.contains c
  lower_special := toLower_special
  insensitive := fun c x h => by
    rw [if_pos rfl]
    exact h

/-- A percent sign in SQLite. -/
theorem percent_not_found :
    ¬∀ (rules : LikeRules) (d : Dialect) (insensitive : Bool) (place : Place) (v : String) (t : List Char),
      selects rules d (operatorOf insensitive place) v t = true ↔ Asked rules insensitive place v t := by
  intro hall
  have hfound := (hall asciiRules .sqlite false .contains "50%" "50%".toList).mpr infix_rfl
  revert hfound
  decide +kernel

end FraiseQL.LikeLiteral
