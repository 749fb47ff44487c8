import FraiseQL.AggregateFilter
import FraiseQL.SqlLike

/-! Aggregate filters against the generic WHERE generator. A row says what the conditions of SQL are worth on it, in
three-valued logic, within the documented behaviour of the database; the conditions of both translators have their
values in place, and their formulas have the same shape, so they select the same rows when condition by condition
they are worth the same. -/

namespace FraiseQL.Aggregate.SqlGenerator

open SqlLex WhereGenerator Dialect SqlLike List Option

/-! ### Three-valued logic -/

def and3 : Option Bool → Option Bool → Option Bool
  | some false, _ => some false
  | _, some false => some false
  | some true, some true => some true
  | _, _ => none

def or3 : Option Bool → Option Bool → Option Bool
  | some true, _ => some true
  | _, some true => some true
  | some false, some false => some false
  | _, _ => none

mutual

/-- What a formula is worth; a row is selected when it is true. -/
def truth {α : Type} (v : α → Option Bool) : Formula α → Option Bool
  | .leaf a => v a
  | .and fs => truthAll v fs
  | .or fs => truthAny v fs
  | .not f => (truth v f).map (!·)

def truthAll {α : Type} (v : α → Option Bool) : List (Formula α) → Option Bool
  | [] => some true
  | f :: fs => and3 (truth v f) (truthAll v fs)

def truthAny {α : Type} (v : α → Option Bool) : List (Formula α) → Option Bool
  | [] => some false
  | f :: fs => or3 (truth v f) (truthAny v fs)

end

/-! ### Rows -/

def dialectOf : DatabaseType → Dialect
  | .postgresql => .postgres
  | .mysql => .mysql
  | .sqlite => .sqlite
  | .sqlserver => .sqlserver

/-- A template with values in its holes. -/
def fill (values : List Json) (t : Template) : List Part :=
  t.map fun
    | .text cs => .text cs
    | .hole .field => .field
    | .hole (.param i) =>
      match values[i]? with
      | some v => .value v
      | none => .text []

/-- The escape character of LIKE without ESCAPE; MySQL has one unless `NO_BACKSLASH_ESCAPES` is set. -/
def likeEscape (backslash : Bool) : Dialect → Option Char
  | .postgres => some '\\'
  | .mysql => if backslash then some '\\' else none
  | .sqlite | .sqlserver => none

def patternText (wild : List Bool) (s : List Char) : List Char := wild.flatMap fun w => if w then ['%'] else s

/-- The same pattern concatenated in SQL. -/
def patternSql (wild : List Bool) (d : Dialect) : Template :=
  concatSql (wild.map fun w => if w then txt "'%'" else p) d

/-- LIKE, or ILIKE where there is one. -/
def likeTemplate (insensitive : Bool) (rhs : Template) (d : Dialect) : Template :=
  if insensitive then ilikeSql lhs rhs d else likeSql lhs rhs d

def likeWord (insensitive : Bool) : List Char := if insensitive then lit "ILIKE" else lit "LIKE"

/-- What the conditions on the paths of a column are worth on a row of a database. -/
structure Row (d : Dialect) (backslash : Bool) where
  worth : String → List Part → Option Bool
  /-- the extracted text, none when it is NULL -/
  textAt : String → Option (List Char)
  /-- how LIKE and ILIKE compare characters -/
  same : Bool → Char → Char → Bool
  isNull : ∀ path, worth path [.field, .text (lit " IS NULL")] = some (textAt path).isNone
  isNotNull : ∀ path, worth path [.field, .text (lit " IS NOT NULL")] = some (textAt path).isSome
  /-- `<>` is `!=` -/
  neq : ∀ path v, worth path [.field, .text (lit " <> "), .value v] = worth path [.field, .text (lit " != "), .value v]
  /-- NOT around IN is NOT IN -/
  notIn : ∀ path items, items ≠ [] → worth path (.text (lit "NOT (") :: listed (lit "IN") items ++ [.text (lit ")")]) =
    worth path (listed (lit "NOT IN") items)
  /-- SQLite takes empty lists -/
  inEmpty : d = .sqlite → ∀ path, worth path (listed (lit "IN") []) = some false ∧
    worth path (listed (lit "NOT IN") []) = some true
  constants : ∀ path, worth path (fill [] (alwaysFalse d)) = some false ∧ worth path (fill [] (alwaysTrue d)) = some true
  /-- a pattern with an escape character of its own -/
  like : ∀ path insensitive s, worth path (compared (likeWord insensitive) (.str s) ++ [.text (lit " ESCAPE '!'")]) =
    (textAt path).map (likeMatch (same insensitive) (some '!') s.toList)
  /-- a pattern put together in SQL; SQL Server names a collation instead -/
  concat : ∀ path insensitive wild s, d ≠ .sqlserver → (insensitive = true → d = .postgres) →
    worth path (fill [.str s] (likeTemplate insensitive (patternSql wild d) d)) =
      (textAt path).map (likeMatch (same insensitive) (likeEscape backslash d) (patternText wild s.toList))

section Worth

variable {d : Dialect} {b : Bool} (row : Row d b)

def Row.filter (f : Filter) : Option Bool := row.worth f.path f.condition

/-- A condition of the generic generator over the column. -/
def Row.condition (c : Condition) : Option Bool :=
  match c.subject with
  | .field [path] => row.worth path (fill (c.bound.map Prod.snd) c.template)
  | _ => none

end Worth

/-! ### Where the translators agree -/

section Agrees

variable (text : TextLibrary) (db : DatabaseType) (b : Bool)

/-- The text means itself in a pattern that the generic generator escapes. -/
def EscapedAlike (s : String) : Prop :=
  likeEscape b (dialectOf db) = some '\\' ∨ ∀ c ∈ s.toList, c ≠ '\\' ∧ c ≠ '%' ∧ c ≠ '_'

/-- The operator says the same of a text in both; a value it does not take is an error here. -/
def AgreesOn (operator : WhereOperator) (value : Json) : Prop :=
  match operator with
  | .eq | .neq =>
    match value with
    | .num _ => False
    | .bool _ => db ≠ .postgresql
    | _ => True
  | .isIn | .nin => ∀ items, value.asArray? = some items → items ≠ [] ∨ db = .sqlite
  | .isNull => value ≠ .bool false
  | .contains | .startswith | .endswith =>
    ∀ s, value.asStr? = some s → db ≠ .sqlserver ∧ '\x00' ∉ s.toList ∧ EscapedAlike db b s
  | .icontains | .istartswith | .iendswith | .ilike =>
    ∀ s, value.asStr? = some s → db = .postgresql ∧ '\x00' ∉ s.toList
  | .like => db ≠ .sqlserver
  | .nilike | .iregex | .niregex => value.asStr? = none
  | _ => False

mutual

/-- Names are in snake case, no conjunction or disjunction is empty, and every operator says the same. -/
def Agrees : WhereClause → Prop
  | .field path operator value => (∀ name ∈ path, text.snakeCase name = name) ∧ AgreesOn db b operator value
  | .and clauses => clauses ≠ [] ∧ AgreesAll clauses
  | .or clauses => clauses ≠ [] ∧ AgreesAll clauses
  | .not clause => Agrees clause
  | .nativeField _ _ _ _ => False

def AgreesAll : List WhereClause → Prop
  | [] => True
  | clause :: clauses => Agrees clause ∧ AgreesAll clauses

end

end Agrees

/-! ### Patterns -/

theorem pattern_eq (write : List Char → List Char) (wild : List Bool) (s : List Char) :
    SqlLike.pattern write (wild.map fun w => if w then .any else .literal s) = patternText wild (write s) := by
  induction wild with
  | nil => rfl
  | cons w wild ih =>
    cases w with
    | false => exact congrArg (write s ++ ·) ih
    | true => exact congrArg ('%' :: ·) ih

/-- A pattern means the same under two escape characters when the text is escaped for each. -/
theorem likeMatch_patternText (same : Char → Char → Bool) {escape escape' : Option Char} {wild : List Bool}
    {s written written' : List Char} (hescape : escape ≠ some '%') (hescape' : escape' ≠ some '%')
    (hwritten : Literal same escape written s) (hwritten' : Literal same escape' written' s) :
    likeMatch same escape (patternText wild written) = likeMatch same escape' (patternText wild written') := by
  have htexts : ∀ t ∈ texts (wild.map fun w => if w then SqlLike.Part.any else .literal s), t = s := by
    induction wild with
    | nil => nofun
    | cons w wild ih =>
      cases w with
      | false => exact forall_mem_cons.mpr ⟨rfl, ih⟩
      | true => exact ih
  have hleft : ∀ t ∈ texts (wild.map fun w => if w then SqlLike.Part.any else .literal s),
      Literal same escape written t := by
    intro t ht
    rw [htexts t ht]
    exact hwritten
  have hright : ∀ t ∈ texts (wild.map fun w => if w then SqlLike.Part.any else .literal s),
      Literal same escape' written' t := by
    intro t ht
    rw [htexts t ht]
    exact hwritten'
  have hpattern := likeMatch_pattern same escape hescape hleft
  have hpattern' := likeMatch_pattern same escape' hescape' hright
  rw [pattern_eq fun _ => written] at hpattern
  rw [pattern_eq fun _ => written'] at hpattern'
  rw [hpattern, hpattern']

theorem escapeLikeLiteral_toList (s : String) : (escapeLikeLiteral s).toList = escaped '\\' s.toList := by
  simp only [escapeLikeLiteral, replaceChar, String.toList_ofList, flatMap_assoc, escaped]
  congr 1
  funext c
  by_cases hback : c = '\\'
  · subst hback
    rfl
  · by_cases hany : c = '%'
    · subst hany
      rfl
    · by_cases hone : c = '_'
      · subst hone
        rfl
      · simp [hback, hany, hone]

/-! ### Conditions -/

section Conditions

variable {db : DatabaseType} {b : Bool} {text : TextLibrary} {value : Json}

/-- A condition of one translator is worth what the other's is. -/
def SameWorth (db : DatabaseType) (b : Bool) (c : List Part) (binding : Binding) : Prop :=
  ∀ (row : Row (dialectOf db) b) (path : String), row.worth path c = row.worth path (fill binding.1 binding.2)

variable {c : List Part}

theorem sameWorth_of_eq {binding : Binding} (h : c = fill binding.1 binding.2) : SameWorth db b c binding := by
  intro row path
  rw [h]

theorem sameWorth_eq (hagrees : AgreesOn db b .eq value) :
    SameWorth db b (compared (lit "=") value) ([value], equality (txt " = ") value (dialectOf db)) := by
  apply sameWorth_of_eq
  cases value with
  | num n => exact hagrees.elim
  | bool x =>
    cases db with
    | postgresql => exact absurd rfl hagrees
    | _ => rfl
  | _ => rfl

theorem sameWorth_neq (hagrees : AgreesOn db b .neq value) :
    SameWorth db b (compared (lit "!=") value) ([value], equality (neqOperator (dialectOf db)) value (dialectOf db)) := by
  have hplain : equality (neqOperator (dialectOf db)) value (dialectOf db) = lhs ++ neqOperator (dialectOf db) ++ p := by
    cases value with
    | num n => exact hagrees.elim
    | bool x =>
      cases db with
      | postgresql => exact absurd rfl hagrees
      | _ => rfl
    | _ => rfl
  rw [hplain]
  cases db with
  | sqlserver =>
    intro row path
    exact (row.neq path value).symm
  | _ => exact sameWorth_of_eq rfl

theorem joinWith_eq_joined (sep : List Char) (ts : List Template) :
    joinWith [.text sep] ts = joined (.text sep) ts := by
  induction ts with
  | nil => rfl
  | cons t ts ih =>
    cases ts with
    | nil => rfl
    | cons u ts =>
      rw [joined_cons_cons, ← ih, joinWith, append_assoc]
      · rfl
      · exact cons_ne_nil u ts

/-- The placeholders of a list stand for its items. -/
theorem fill_placeholders (items : List Json) :
    (placeholders items.length).map (fill items) = items.map fun v => [.value v] := by
  apply ext_getElem
  · simp [placeholders]
  · intro i hleft hright
    have hi : i < items.length := by simpa [placeholders] using hleft
    simp [placeholders, fill, hi]

theorem fill_in (items : List Json) :
    fill items (lhs ++ txt " IN (" ++ joinWith (txt ", ") (placeholders items.length) ++ txt ")") =
      listed (lit "IN") items := by
  have hjoined : fill items (joinWith (txt ", ") (placeholders items.length)) =
      joined (.text (lit ", ")) (items.map fun v => [.value v]) := by
    rw [← fill_placeholders, fill, txt, joinWith_eq_joined, joined_map]
    rfl
  have happend : fill items (lhs ++ txt " IN (" ++ joinWith (txt ", ") (placeholders items.length) ++ txt ")") =
      .field :: .text (lit " IN (") :: (fill items (joinWith (txt ", ") (placeholders items.length)) ++
        [.text (lit ")")]) := by
    simp only [fill, map_append, append_assoc]
    rfl
  rw [happend, hjoined]
  rfl

theorem sameWorth_in {items : List Json} (hitems : items ≠ [] ∨ db = .sqlite) :
    ∃ binding, WhereGenerator.membership false (.arr items) (dialectOf db) = .ok binding ∧
      SameWorth db b (listed (lit "IN") items) binding := by
  cases items with
  | nil =>
    obtain rfl : db = .sqlite := hitems.resolve_left fun hne => hne rfl
    refine ⟨([], alwaysFalse .sqlite), rfl, ?_⟩
    intro row path
    exact (row.inEmpty rfl path).1.trans (row.constants path).1.symm
  | cons v items =>
    refine ⟨(v :: items, lhs ++ txt " IN (" ++ joinWith (txt ", ") (placeholders (v :: items).length) ++ txt ")"),
      rfl, ?_⟩
    exact sameWorth_of_eq (fill_in (v :: items)).symm

theorem sameWorth_notIn {items : List Json} (hitems : items ≠ [] ∨ db = .sqlite) :
    ∃ binding, WhereGenerator.membership true (.arr items) (dialectOf db) = .ok binding ∧
      SameWorth db b (listed (lit "NOT IN") items) binding := by
  cases items with
  | nil =>
    obtain rfl : db = .sqlite := hitems.resolve_left fun hne => hne rfl
    refine ⟨([], alwaysTrue .sqlite), rfl, ?_⟩
    intro row path
    exact (row.inEmpty rfl path).2.trans (row.constants path).2.symm
  | cons v items =>
    refine ⟨(v :: items, txt "NOT (" ++ (lhs ++ txt " IN (" ++
      joinWith (txt ", ") (placeholders (v :: items).length) ++ txt ")") ++ txt ")"), rfl, ?_⟩
    intro row path
    have hfill : fill (v :: items) (txt "NOT (" ++ (lhs ++ txt " IN (" ++
        joinWith (txt ", ") (placeholders (v :: items).length) ++ txt ")") ++ txt ")") =
        .text (lit "NOT (") :: listed (lit "IN") (v :: items) ++ [.text (lit ")")] := by
      rw [← fill_in, fill, fill, map_append, map_append]
      rfl
    rw [hfill, row.notIn path (v :: items) nofun]

variable {s : String}

theorem filter_nul (hnul : '\x00' ∉ s.toList) : s.toList.filter (· ≠ '\x00') = s.toList := by
  rw [filter_eq_self]
  intro c hc
  exact decide_eq_true fun h => hnul (h ▸ hc)

/-- A text that stands for itself between wildcards. -/
theorem sameWorth_pattern {insensitive : Bool} {wild : List Bool} (hdb : db ≠ .sqlserver)
    (hinsensitive : insensitive = true → db = .postgresql) (hnul : '\x00' ∉ s.toList) (hescaped : EscapedAlike db b s) :
    SameWorth db b
      (compared (likeWord insensitive)
        (.str (String.ofList (patternText wild (escapeLike (s.toList.filter (· ≠ '\x00')))))) ++
        [.text (lit " ESCAPE '!'")])
      ([.str (escapeLikeLiteral s)],
        likeTemplate insensitive (patternSql wild (dialectOf db)) (dialectOf db)) := by
  intro row path
  have hdialect : dialectOf db ≠ .sqlserver := by cases db <;> first | exact absurd rfl hdb | nofun
  have hpostgres : insensitive = true → dialectOf db = .postgres := by
    intro h
    rw [hinsensitive h]
    rfl
  have hliteral : Literal (row.same insensitive) (likeEscape b (dialectOf db)) (escapeLikeLiteral s).toList s.toList := by
    rw [escapeLikeLiteral_toList]
    rcases hescaped with hescape | hplain
    · rw [hescape]
      exact escaped_literal _ _ _
    · rw [escaped_eq_self hplain]
      apply plain_literal
      intro c hc
      refine ⟨?_, (hplain c hc).2⟩
      intro hescape
      have hback : some c = some '\\' ∨ some c = none := by
        rw [← hescape]
        cases db <;> cases b <;> simp [dialectOf, likeEscape]
      rcases hback with hback | hback
      · exact (hplain c hc).1 (some.inj hback)
      · cases hback
  rw [row.like, row.concat path insensitive wild _ hdialect hpostgres, filter_nul hnul, String.toList_ofList]
  congr 1
  refine likeMatch_patternText (row.same insensitive) ?_ ?_ (escaped_literal _ _ _) hliteral
  · decide
  · cases db <;> cases b <;> decide

variable {operator : WhereOperator}

theorem likened_pattern {wild : List Bool}
    (hpattern : ∀ v, likePattern operator v = (patternText wild (escapeLike v), true)) (insensitive : Bool)
    (s : String) :
    likened operator [.field] (likeWord insensitive) s =
      compared (likeWord insensitive)
        (.str (String.ofList (patternText wild (escapeLike (s.toList.filter (· ≠ '\x00')))))) ++
        [.text (lit " ESCAPE '!'")] := by
  rw [likened, hpattern]
  rfl

/-- An operator that puts a text between wildcards. -/
theorem pattern_agrees (name : String) (wild : List Bool) (insensitive : Bool)
    (hpattern : ∀ v, likePattern operator v = (patternText wild (escapeLike v), true)) (hdb : db ≠ .sqlserver)
    (hinsensitive : insensitive = true → db = .postgresql) (hnul : '\x00' ∉ s.toList) (hescaped : EscapedAlike db b s) :
    ∃ binding, patternMatch name (if insensitive then ilikeSql else likeSql)
        (wild.map fun w => if w then txt "'%'" else p) (.str s) (dialectOf db) = .ok binding ∧
      SameWorth db b (likened operator [.field] (likeWord insensitive) s) binding := by
  refine ⟨([.str (escapeLikeLiteral s)], likeTemplate insensitive (patternSql wild (dialectOf db)) (dialectOf db)),
    ?_, ?_⟩
  · cases insensitive <;> rfl
  · rw [likened_pattern hpattern]
    exact sameWorth_pattern hdb hinsensitive hnul hescaped

theorem ipattern_agrees (name : String) (wild : List Bool)
    (hpattern : ∀ v, likePattern operator v = (patternText wild (escapeLike v), true)) (hnul : '\x00' ∉ s.toList) :
    ∃ binding, patternMatch name ilikeSql (wild.map fun w => if w then txt "'%'" else p) (.str s) .postgres =
        .ok binding ∧
      SameWorth .postgresql b (likened operator [.field] (likeWord true) s) binding := by
  have hescaped : EscapedAlike .postgresql b s := .inl rfl
  have hdb : DatabaseType.postgresql ≠ .sqlserver := by decide
  exact pattern_agrees name wild true hpattern hdb (fun _ => rfl) hnul hescaped

theorem likePattern_wild (v : List Char) :
    likePattern .contains v = (patternText [true, false, true] (escapeLike v), true) ∧
    likePattern .icontains v = (patternText [true, false, true] (escapeLike v), true) ∧
    likePattern .startswith v = (patternText [false, true] (escapeLike v), true) ∧
    likePattern .istartswith v = (patternText [false, true] (escapeLike v), true) ∧
    likePattern .endswith v = (patternText [true, false] (escapeLike v), true) ∧
    likePattern .iendswith v = (patternText [true, false] (escapeLike v), true) := by
  simp [likePattern, patternText]

/-- What the value of a pattern operator is. -/
theorem likened_of_asStr (operator : WhereOperator) (word : List Char) (hc : value.asStr?.map (likened operator [.field] word) = some c) :
    ∃ s, value = .str s ∧ c = likened operator [.field] word s := by
  obtain ⟨s, hs, rfl⟩ := map_eq_some_iff.mp hc
  refine ⟨s, ?_, rfl⟩
  cases value <;> cases hs
  rfl

/-- A value that is no text is refused by the operators that ignore case. -/
theorem asStr_of_filterOf (hoperator : isCaseInsensitive operator = true)
    (hc : filterOf db text operator value = some c) : ∃ s, value.asStr? = some s := by
  cases hs : value.asStr? with
  | some s => exact ⟨s, rfl⟩
  | none =>
    cases operator <;> first | (cases hoperator; done) | simp [filterOf, isCaseInsensitive, hs] at hc

theorem condition_agrees (hagrees : AgreesOn db b operator value) (hc : filterOf db text operator value = some c) :
    ∃ binding, conditionOf operator value (dialectOf db) = .ok binding ∧ SameWorth db b c binding := by
  cases operator with
  | eq =>
    cases hc
    exact ⟨_, rfl, sameWorth_eq hagrees⟩
  | neq =>
    cases hc
    exact ⟨_, rfl, sameWorth_neq hagrees⟩
  | isIn =>
    obtain ⟨items, hitems, rfl⟩ := map_eq_some_iff.mp hc
    obtain rfl : value = .arr items := by cases value <;> cases hitems; rfl
    exact sameWorth_in (hagrees items rfl)
  | nin =>
    obtain ⟨items, hitems, rfl⟩ := map_eq_some_iff.mp hc
    obtain rfl : value = .arr items := by cases value <;> cases hitems; rfl
    exact sameWorth_notIn (hagrees items rfl)
  | isNull =>
    cases hc
    have hvalue : value.asBool?.getD true = true := by
      cases value with
      | bool x =>
        cases x with
        | false => exact absurd rfl hagrees
        | true => rfl
      | _ => rfl
    refine ⟨([], lhs ++ txt " IS NULL"), ?_, sameWorth_of_eq rfl⟩
    rw [conditionOf, hvalue]
    rfl
  | contains =>
    obtain ⟨s, rfl, rfl⟩ := likened_of_asStr .contains (lit "LIKE") hc
    obtain ⟨hdb, hnul, hescaped⟩ := hagrees s rfl
    exact pattern_agrees "Contains" [true, false, true] false (fun v => (likePattern_wild v).1) hdb nofun hnul hescaped
  | startswith =>
    obtain ⟨s, rfl, rfl⟩ := likened_of_asStr .startswith (lit "LIKE") hc
    obtain ⟨hdb, hnul, hescaped⟩ := hagrees s rfl
    exact pattern_agrees "Startswith" [false, true] false (fun v => (likePattern_wild v).2.2.1) hdb nofun hnul hescaped
  | endswith =>
    obtain ⟨s, rfl, rfl⟩ := likened_of_asStr .endswith (lit "LIKE") hc
    obtain ⟨hdb, hnul, hescaped⟩ := hagrees s rfl
    exact pattern_agrees "Endswith" [true, false] false (fun v => (likePattern_wild v).2.2.2.2.1) hdb nofun hnul hescaped
  | icontains =>
    obtain ⟨s, hs⟩ := asStr_of_filterOf rfl hc
    obtain ⟨rfl, hnul⟩ := hagrees s hs
    obtain ⟨t, rfl, rfl⟩ := likened_of_asStr .icontains (lit "ILIKE") hc
    obtain rfl := some.inj hs
    exact ipattern_agrees "Icontains" [true, false, true] (fun v => (likePattern_wild v).2.1) hnul
  | istartswith =>
    obtain ⟨s, hs⟩ := asStr_of_filterOf rfl hc
    obtain ⟨rfl, hnul⟩ := hagrees s hs
    obtain ⟨t, rfl, rfl⟩ := likened_of_asStr .istartswith (lit "ILIKE") hc
    obtain rfl := some.inj hs
    exact ipattern_agrees "Istartswith" [false, true] (fun v => (likePattern_wild v).2.2.2.1) hnul
  | iendswith =>
    obtain ⟨s, hs⟩ := asStr_of_filterOf rfl hc
    obtain ⟨rfl, hnul⟩ := hagrees s hs
    obtain ⟨t, rfl, rfl⟩ := likened_of_asStr .iendswith (lit "ILIKE") hc
    obtain rfl := some.inj hs
    exact ipattern_agrees "Iendswith" [true, false] (fun v => (likePattern_wild v).2.2.2.2.2) hnul
  | like =>
    cases hc
    refine ⟨_, rfl, ?_⟩
    cases db with
    | sqlserver => exact absurd rfl hagrees
    | _ => exact sameWorth_of_eq rfl
  | ilike =>
    obtain ⟨s, hs⟩ := asStr_of_filterOf rfl hc
    obtain ⟨rfl, hnul⟩ := hagrees s hs
    obtain ⟨t, rfl, rfl⟩ := likened_of_asStr .ilike (lit "ILIKE") hc
    obtain rfl := some.inj hs
    refine ⟨([.str t], ilikeSql lhs p .postgres), rfl, ?_⟩
    apply sameWorth_of_eq
    rw [likened, filter_nul hnul]
    show [Part.field, .text (lit " ILIKE "), .value (.str (String.ofList t.toList))] = _
    rw [String.ofList_toList]
    rfl
  | nilike | iregex | niregex =>
    obtain ⟨s, hs⟩ := asStr_of_filterOf rfl hc
    rw [hagrees] at hs
    cases hs
  | _ => exact hagrees.elim

end Conditions

/-! ### Clauses -/

section Clauses

variable {db : DatabaseType} {b : Bool} {text : TextLibrary} {metadata : FactTableMetadata}

theorem pushAll_values (push : GenState → Json → Nat × GenState) (values : List Json) (s : GenState) :
    (pushAll push values s).1.map Prod.snd = values := by
  induction values generalizing s with
  | nil => rfl
  | cons v values ih =>
    rw [pushAll, map_cons, ih]

theorem field_agrees {name : String} {operator : WhereOperator} {value : Json} {f : Formula Filter}
    (hagrees : Agrees text db b (.field [name] operator value))
    (hf : filters db text (.field [name] operator value) = some f) (s : GenState) :
    ∃ g s', conditions (new (dialectOf db)) (.field [name] operator value) s = .ok (g, s') ∧
      ∀ row : Row (dialectOf db) b, truth row.filter f = truth row.condition g := by
  obtain ⟨hnames, hoperator⟩ := hagrees
  have hname : text.snakeCase name = name := hnames name mem_cons_self
  rw [filters] at hf
  obtain ⟨c, hc, rfl⟩ := map_eq_some_iff.mp hf
  obtain ⟨⟨values, template⟩, hcondition, hsame⟩ := condition_agrees hoperator hc
  let pushed := pushAll (if isExtended operator then pushExtended else pushParam) values s
  have hvisit : visitField (new (dialectOf db)) [name] operator value s =
      .ok (⟨.field [name], pushed.1, template⟩, pushed.2) := by
    rw [visitField]
    show conditionOf operator value (dialectOf db) >>= _ = _
    rw [hcondition]
    rfl
  refine ⟨.leaf ⟨.field [name], pushed.1, template⟩, pushed.2, ?_, ?_⟩
  · rw [conditions, hvisit]
    rfl
  · intro row
    show row.worth (text.snakeCase name) c = row.worth name (fill (pushed.1.map Prod.snd) template)
    rw [pushAll_values, hname]
    exact hsame row name

mutual

/-- The formulas of both translators are worth the same on every row. -/
theorem filters_agree : ∀ (clause : WhereClause) (f : Formula Filter) (s : GenState), OverDimensions metadata clause →
    Agrees text db b clause → filters db text clause = some f →
    ∃ g s', conditions (new (dialectOf db)) clause s = .ok (g, s') ∧
      ∀ row : Row (dialectOf db) b, truth row.filter f = truth row.condition g
  | .field path operator value, f, s, hover, hagrees, hf => by
    obtain ⟨name, rfl, -⟩ := hover
    exact field_agrees hagrees hf s
  | .and clauses, f, s, hover, hagrees, hf => by
    rw [filters] at hf
    obtain ⟨fs, hfs, rfl⟩ := map_eq_some_iff.mp hf
    obtain ⟨gs, s', hgs, hall, -⟩ := filtersAll_agree clauses fs s hover hagrees.2 hfs
    refine ⟨.and gs, s', ?_, hall⟩
    rw [conditions, hgs]
    rfl
  | .or clauses, f, s, hover, hagrees, hf => by
    rw [filters] at hf
    obtain ⟨fs, hfs, rfl⟩ := map_eq_some_iff.mp hf
    obtain ⟨gs, s', hgs, -, hany⟩ := filtersAll_agree clauses fs s hover hagrees.2 hfs
    refine ⟨.or gs, s', ?_, hany⟩
    rw [conditions, hgs]
    rfl
  | .not clause, f, s, hover, hagrees, hf => by
    rw [filters] at hf
    obtain ⟨inner, hinner, rfl⟩ := map_eq_some_iff.mp hf
    obtain ⟨g, s', hg, hsame⟩ := filters_agree clause inner s hover hagrees hinner
    refine ⟨.not g, s', ?_, ?_⟩
    · rw [conditions, hg]
      rfl
    · intro row
      rw [truth, truth, hsame row]
  | .nativeField _ _ _ _, _, _, hover, _, _ => hover.elim

theorem filtersAll_agree : ∀ (clauses : List WhereClause) (fs : List (Formula Filter)) (s : GenState),
    OverDimensionsAll metadata clauses → AgreesAll text db b clauses → filtersAll db text clauses = some fs →
    ∃ gs s', conditionsAll (new (dialectOf db)) clauses s = .ok (gs, s') ∧
      (∀ row : Row (dialectOf db) b, truthAll row.filter fs = truthAll row.condition gs) ∧
      ∀ row : Row (dialectOf db) b, truthAny row.filter fs = truthAny row.condition gs
  | [], fs, s, _, _, hfs => by
    cases hfs
    exact ⟨[], s, rfl, fun _ => rfl, fun _ => rfl⟩
  | clause :: clauses, fs, s, hover, hagrees, hfs => by
    rw [filtersAll] at hfs
    obtain ⟨f, hf, hfs⟩ := bind_eq_some_iff.mp hfs
    obtain ⟨rest, hrest, hfs⟩ := bind_eq_some_iff.mp hfs
    cases hfs
    obtain ⟨g, s', hg, hsame⟩ := filters_agree clause f s hover.1 hagrees.1 hf
    obtain ⟨gs, s'', hgs, hall, hany⟩ := filtersAll_agree clauses rest s' hover.2 hagrees.2 hrest
    refine ⟨g :: gs, s'', ?_, ?_, ?_⟩
    · rw [conditionsAll, hg]
      show conditionsAll _ clauses s' >>= _ = _
      rw [hgs]
      rfl
    · intro row
      rw [truthAll, truthAll, hsame row, hall row]
    · intro row
      rw [truthAny, truthAny, hsame row, hany row]

end

/-- Placeholders are numbered in the order of the bound values, HAVING going on where WHERE stopped; and where the
operators agree, the rows a filter selects are those the generic generator selects. -/
theorem aggregate_filters_agree (db : DatabaseType) (text : TextLibrary) (metadata : FactTableMetadata) (b : Bool) :
    (∀ (clause : WhereClause) (params : List Json), OverDimensions metadata clause →
      (whereClauseToSql db text metadata clause params).toOption = (filters db text clause).map fun f =>
        emitted db metadata.dimensions.name params (filterPieces f)) ∧
    (∀ (having : List ValidatedHavingCondition) (params : List Json), having ≠ [] →
      buildHavingClause db having params = emitted db metadata.dimensions.name params
        (.text (lit "HAVING ") :: joined (.text (lit " AND ")) (havingPieces db having))) ∧
    ∀ (clause : WhereClause) (f : Formula Filter), OverDimensions metadata clause → Agrees text db b clause →
      filters db text clause = some f →
      ∃ g s, conditions (new (dialectOf db)) clause ⟨0, []⟩ = .ok (g, s) ∧
        visit (new (dialectOf db)) clause ⟨0, []⟩ = .ok (layout (dialectOf db) g, s) ∧
        ∀ row : Row (dialectOf db) b, truth row.filter f = truth row.condition g := by
  refine ⟨?_, ?_, ?_⟩
  · intro clause params hover
    exact whereClauseToSql_toOption metadata db text clause params hover
  · intro having params hhaving
    exact buildHavingClause_eq db metadata.dimensions.name hhaving params
  · intro clause f hover hagrees hf
    obtain ⟨g, s, hg, hsame⟩ := filters_agree clause f ⟨0, []⟩ hover hagrees hf
    refine ⟨g, s, hg, ?_, hsame⟩
    rw [visit_eq_layout, hg]
    rfl

end Clauses

/-! ### A row without values -/

/-- What conditions are worth when the column is NULL: comparisons are unknown. -/
def nullWorth (d : Dialect) : List Part → Option Bool
  | [.field, .text cs] =>
    if cs = lit " IS NULL" then some true else if cs = lit " IS NOT NULL" then some false else none
  | [.text cs] =>
    if [.text cs] = alwaysFalse d then some false else if [.text cs] = alwaysTrue d then some true else none
  | [.field, .text cs, .text _] =>
    if d = .sqlite ∧ cs = lit " IN (" then some false
    else if d = .sqlite ∧ cs = lit " NOT IN (" then some true
    else none
  | _ => none

theorem nullWorth_compared {d : Dialect} {cs : List Char}
    (hcs : cs ∉ [lit " IS NULL", lit " IS NOT NULL", lit " IN (", lit " NOT IN ("]) (rest : List Part) :
    nullWorth d (.field :: .text cs :: rest) = none := by
  simp only [mem_cons, not_mem_nil, or_false, not_or] at hcs
  obtain ⟨hnull, hnotNull, hin, hnotIn⟩ := hcs
  cases rest with
  | nil => rw [nullWorth, if_neg hnull, if_neg hnotNull]
  | cons u rest =>
    cases rest with
    | nil =>
      cases u with
      | text ds => rw [nullWorth, if_neg fun h => hin h.2, if_neg fun h => hnotIn h.2]
      | field => rfl
      | value v => rfl
    | cons u' rest => cases u <;> rfl

def nullRow (d : Dialect) (b : Bool) : Row d b where
  worth _ c := nullWorth d c
  textAt _ := none
  same _ _ _ := false
  isNull _ := rfl
  isNotNull _ := rfl
  neq _ _ := rfl
  notIn _ items hitems := by
    cases items with
    | nil => exact absurd rfl hitems
    | cons v items =>
      cases items with
      | nil => rfl
      | cons w items => rfl
  inEmpty hd _ := by
    subst hd
    exact ⟨rfl, rfl⟩
  constants _ := by cases d <;> exact ⟨rfl, rfl⟩
  like _ insensitive _ := by cases insensitive <;> rfl
  concat _ insensitive wild s hd hinsensitive := by
    have hlike : ∀ rhs, nullWorth d (.field :: .text (lit " LIKE ") :: rhs) = none := nullWorth_compared (by decide)
    have hilike : ∀ rhs, nullWorth d (.field :: .text (lit " ILIKE ") :: rhs) = none := nullWorth_compared (by decide)
    cases insensitive with
    | true =>
      obtain rfl := hinsensitive rfl
      exact hilike _
    | false =>
      cases d with
      | sqlserver => exact absurd rfl hd
      | _ => exact hlike _

section Sales

def asciiText : TextLibrary :=
  ⟨Char.isUpper, Char.isLower, fun s => s.map Char.toLower, fun s => s.map Char.toUpper, String.intercalate ", "⟩

def sales : FactTableMetadata := ⟨"tf_sales", ["revenue"], ⟨"dimensions", []⟩, [], []⟩

def regionFilter : WhereClause :=
  .and [.field ["region"] .isIn (.arr [.str "north", .null]), .field ["segment"] .contains (.str "50%")]

theorem region_filter_agrees :
    whereClauseToSql .postgresql asciiText sales regionFilter [] =
      .ok (lit "(dimensions->>'region'  IN ($1, NULL) AND dimensions->>'segment'  LIKE $2 ESCAPE '!')",
        [.str "north", .str "%50!%%"]) ∧
    ∃ g s, conditions (new .postgres) regionFilter ⟨0, []⟩ = .ok (g, s) ∧
      visit (new .postgres) regionFilter ⟨0, []⟩ = .ok (layout .postgres g, s) ∧
      ∀ row : Row .postgres true, ∃ f, filters .postgresql asciiText regionFilter = some f ∧
        truth row.filter f = truth row.condition g := by
  refine ⟨by decide +kernel, ?_⟩
  have hover : OverDimensions sales regionFilter := ⟨⟨"region", rfl, rfl⟩, ⟨"segment", rfl, rfl⟩, trivial⟩
  have hagrees : Agrees asciiText .postgresql true regionFilter := by
    refine ⟨nofun, ⟨?_, ?_⟩, ⟨?_, ?_⟩, trivial⟩
    · decide +kernel
    · intro items hitems
      cases hitems
      exact .inl nofun
    · decide +kernel
    · intro s hs
      cases hs
      exact ⟨nofun, by decide +kernel, .inl rfl⟩
  obtain ⟨g, s, hg, hvisit, hsame⟩ :=
    (aggregate_filters_agree .postgresql asciiText sales true).2.2 regionFilter _ hover hagrees rfl
  exact ⟨g, s, hg, hvisit, fun row => ⟨_, rfl, hsame row⟩⟩

/-- `isnull: false` asks the aggregate for the rows without a value, the generic generator for the others. -/
theorem not_null_filter_takes_nulls :
    OverDimensions sales (.field ["region"] .isNull (.bool false)) ∧
    whereClauseToSql .postgresql asciiText sales (.field ["region"] .isNull (.bool false)) [] =
      .ok (lit "dimensions->>'region'  IS NULL", []) ∧
    WhereGenerator.generate (new .postgres) (.field ["region"] .isNull (.bool false)) =
      .ok ("data->>'region' IS NOT NULL", []) ∧
    ∃ f g s, filters .postgresql asciiText (.field ["region"] .isNull (.bool false)) = some f ∧
      conditions (new .postgres) (.field ["region"] .isNull (.bool false)) ⟨0, []⟩ = .ok (g, s) ∧
      truth (nullRow .postgres true).filter f = some true ∧
      truth (nullRow .postgres true).condition g = some false :=
  ⟨⟨"region", rfl, rfl⟩, by decide +kernel, by decide +kernel, _, _, _, rfl, rfl, rfl, rfl⟩

end Sales

end FraiseQL.Aggregate.SqlGenerator
