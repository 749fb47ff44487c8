import FraiseQL.CacheKey
import FraiseQL.PostgresAdapter

/-! What two reads with the same key have in common. The tokens of a key determine the view, the projection,
the WHERE clause and the page of a read, but of its order only the storage keys and the directions; the SQL
sorts by a native column or a cast, which the key leaves out. So reads with the same key run the same SQL
exactly when their orders agree on that too, or when there is no SQL to run. -/

namespace FraiseQL.CacheKey

open DebugText PostgresAdapter PrefixCode WhereFilter String Option

/-! ### What the tokens determine -/

/-- The order of a call that is not empty. -/
def Call.order (call : Call) : List OrderByClause :=
  (call.orderBy.filter fun clauses => !clauses.isEmpty).getD []

/-- Same storage key and same direction. -/
def SameKey (cc : WhereFilter.CharCase) (c d : OrderByClause) : Prop :=
  WhereFilter.toSnakeCase cc c.field = WhereFilter.toSnakeCase cc d.field ∧ c.direction = d.direction

/-- The values of a call are held as `serde_json` holds them. -/
def Call.Held (call : Call) : Prop := ∀ clause, call.whereClause = some clause → HeldClause clause

/-- The values that the call compares with native columns. -/
def Call.nativeValues (call : Call) : List Json := call.whereClause.toList.flatMap CacheKey.nativeValues

/-- Everything but the order is the same, and the orders have the same keys. -/
structure Agree (cc : WhereFilter.CharCase) (call call' : Call) : Prop where
  view : call.view = call'.view
  whereClause : call.whereClause = call'.whereClause
  limit : call.limit = call'.limit
  offset : call.offset = call'.offset
  order : List.Forall₂ (SameKey cc) call.order call'.order

theorem hashNumber_decodes : Decodes (fun _ => True) hashNumber := by
  intro a b _ _ x y heq
  cases a <;> cases b <;> simp_all [hashNumber]

theorem hashProjection_decodes : Decodes (fun _ => True) hashProjection := by
  intro a b _ _ x y heq
  cases a <;> cases b <;> simp_all [hashProjection]

variable {call call' : Call} (pr : Printer)

theorem hashWhere_decodes (hheld : call.Held) (hheld' : call'.Held)
    (htold : ToldApart pr call.nativeValues call'.nativeValues) (x y : List HashToken)
    (heq : hashWhere pr call.whereClause ++ x = hashWhere pr call'.whereClause ++ y) :
    call.whereClause = call'.whereClause ∧ x = y := by
  cases hc : call.whereClause with
  | none =>
    rw [hc] at heq
    cases hc' : call'.whereClause with
    | none =>
      rw [hc'] at heq
      exact ⟨rfl, (List.cons.inj heq).2⟩
    | some clause' =>
      rw [hc'] at heq
      simp [hashWhere] at heq
  | some clause =>
    rw [hc] at heq
    cases hc' : call'.whereClause with
    | none =>
      rw [hc'] at heq
      simp [hashWhere] at heq
    | some clause' =>
      rw [hc'] at heq
      have hvalues : ToldApart pr (CacheKey.nativeValues clause) (CacheKey.nativeValues clause') := by
        simpa [Call.nativeValues, hc, hc'] using htold
      obtain ⟨rfl, hxy⟩ := hashWhereClause_decodes pr clause clause' (hheld clause hc)
        (hheld' clause' hc') hvalues x y (List.cons.inj heq).2
      exact ⟨rfl, hxy⟩

theorem hashOrderByClause_decodes (cc : WhereFilter.CharCase) (c d : OrderByClause) (x y : List HashToken)
    (heq : hashOrderByClause cc c ++ x = hashOrderByClause cc d ++ y) : SameKey cc c d ∧ x = y := by
  obtain ⟨hkey, hdirection, hxy⟩ :
      toSnakeCase cc c.field = toSnakeCase cc d.field ∧
        directionByte c.direction = directionByte d.direction ∧ x = y := by
    simpa [hashOrderByClause] using heq
  refine ⟨⟨hkey, ?_⟩, hxy⟩
  cases hc : c.direction <;> cases hd : d.direction <;> simp_all [directionByte]

theorem hashOrderByClauses_decodes (cc : WhereFilter.CharCase) (cs ds : List OrderByClause)
    (hlength : cs.length = ds.length) (x y : List HashToken)
    (heq : cs.flatMap (hashOrderByClause cc) ++ x = ds.flatMap (hashOrderByClause cc) ++ y) :
    List.Forall₂ (SameKey cc) cs ds ∧ x = y := by
  induction cs generalizing ds with
  | nil =>
    obtain rfl := List.length_eq_zero_iff.mp hlength.symm
    exact ⟨.nil, heq⟩
  | cons c cs ih =>
    cases ds with
    | nil => cases hlength
    | cons d ds =>
      rw [List.flatMap_cons, List.flatMap_cons, List.append_assoc, List.append_assoc] at heq
      obtain ⟨hsame, hrest⟩ := hashOrderByClause_decodes cc c d _ _ heq
      obtain ⟨hall, hxy⟩ := ih ds (Nat.succ.inj hlength) hrest
      exact ⟨.cons hsame hall, hxy⟩

theorem hashOrderBy_decodes (cc : WhereFilter.CharCase) (call call' : Call) (x y : List HashToken)
    (heq : hashOrderBy cc call.orderBy ++ x = hashOrderBy cc call'.orderBy ++ y) :
    List.Forall₂ (SameKey cc) call.order call'.order ∧ x = y := by
  unfold hashOrderBy at heq
  unfold Call.order
  cases ho : call.orderBy.filter fun clauses => !clauses.isEmpty with
  | none =>
    rw [ho] at heq
    cases ho' : call'.orderBy.filter fun clauses => !clauses.isEmpty with
    | none =>
      rw [ho'] at heq
      exact ⟨.nil, (List.cons.inj heq).2⟩
    | some ds =>
      rw [ho'] at heq
      simp at heq
  | some cs =>
    rw [ho] at heq
    cases ho' : call'.orderBy.filter fun clauses => !clauses.isEmpty with
    | none =>
      rw [ho'] at heq
      simp at heq
    | some ds =>
      rw [ho'] at heq
      obtain ⟨hlength, hrest⟩ := List.cons.inj (List.cons.inj heq).2
      exact hashOrderByClauses_decodes cc cs ds (HashToken.usize.inj hlength) x y hrest

theorem hashRest_agree (cc : WhereFilter.CharCase) (hheld : call.Held)
    (hheld' : call'.Held) (htold : ToldApart pr call.nativeValues call'.nativeValues)
    (hview : call.view = call'.view) (heq : hashRest pr cc call = hashRest pr cc call') :
    Agree cc call call' := by
  simp only [hashRest, List.cons_append, List.append_assoc, List.cons.injEq, true_and] at heq
  obtain ⟨hwhere, heq⟩ := hashWhere_decodes pr hheld hheld' htold _ _ heq
  simp only [List.cons.injEq, true_and] at heq
  obtain ⟨hlimit, heq⟩ := hashNumber_decodes _ _ trivial trivial _ _ heq
  simp only [List.cons.injEq, true_and] at heq
  obtain ⟨hoffset, heq⟩ := hashNumber_decodes _ _ trivial trivial _ _ heq
  simp only [List.cons.injEq, true_and] at heq
  exact ⟨hview, hwhere, hlimit, hoffset, (hashOrderBy_decodes cc call call' _ _ heq).1⟩

/-! ### What the SQL depends on -/

/-- The same native column, or the same cast of the same JSON field. -/
def SameSort (c d : OrderByClause) : Prop :=
  c.nativeColumn = d.nativeColumn ∧ (c.nativeColumn = none → c.fieldType = d.fieldType)

/-- Both orders have a name that is refused, or neither has and they sort by the same expressions. -/
def SortsAlike (cs ds : List OrderByClause) : Prop :=
  ((∃ c ∈ cs, Refused c) ∧ ∃ d ∈ ds, Refused d) ∨
    ((∀ c ∈ cs, ¬Refused c) ∧ (∀ d ∈ ds, ¬Refused d) ∧ List.Forall₂ SameSort cs ds)

/-- The WHERE clause has no SQL. -/
def Call.NoSql (call : Call) : Prop :=
  ∃ clause e, call.whereClause = some clause ∧
    WhereGenerator.generate (WhereGenerator.new .postgres) clause = .error e

/-- The native columns are plain names, as the executor sets them. -/
def Call.PlainColumns (call : Call) : Prop :=
  ∀ c ∈ call.order, ∀ column, c.nativeColumn = some column →
    ∀ ch ∈ column.toList, (ch.isAlphanum || ch == '_') = true

variable {cc : WhereFilter.CharCase}

theorem sortExpr_same {c d : OrderByClause} (hkey : SameKey cc c d)
    (hsort : SameSort c d) : sortExpr cc c = sortExpr cc d := by
  unfold sortExpr
  rw [← hsort.1]
  cases hcolumn : c.nativeColumn with
  | some column => rfl
  | none =>
    show typedJsonFieldExpr _ _ = typedJsonFieldExpr _ _
    rw [hkey.1, hsort.2 hcolumn]

variable {cs ds : List OrderByClause}

theorem orderText_same (hkeys : List.Forall₂ (SameKey cc) cs ds) (hsorts : List.Forall₂ SameSort cs ds) (first : Bool) :
    orderText cc first cs = orderText cc first ds := by
  induction hkeys generalizing first with
  | nil => rfl
  | cons hkey _ ih =>
    cases hsorts with
    | cons hsort hsorts => rw [orderText, orderText, sortExpr_same hkey hsort, hkey.2, ih hsorts]

variable {t u : OrderByFieldType}

theorem castType_inj (h : castType t = castType u) : t = u := by
  cases t <;> cases u <;> simp [castType] at h <;> rfl

variable {x y : List Char}

/-- A cast is read up to the blank after it. -/
theorem castType_closed {a b : String} (ha : castType t = some a)
    (hb : castType u = some b) (heq : a.toList ++ ' ' :: x = b.toList ++ ' ' :: y) :
    t = u ∧ x = y := by
  have hplain : ∀ {v : OrderByFieldType} {s : String}, castType v = some s → ∀ ch ∈ s.toList, ch ≠ ' ' := by
    intro v s hs
    cases v <;> simp [castType] at hs <;> subst hs <;> simp
  obtain ⟨htext, -, hxy⟩ := run_until (· ≠ ' ') _ _ x y (hplain ha) (hplain hb) (by simp) (by simp) heq
  have hname := toList_inj.mp htext
  subst hname
  exact ⟨castType_inj (ha.trans hb.symm), hxy⟩

/-- The JSON expressions of one key are told apart by their casts. -/
theorem typedJsonFieldExpr_closed {key : String}
    (heq : (typedJsonFieldExpr key t).toList ++ ' ' :: x = (typedJsonFieldExpr key u).toList ++ ' ' :: y) :
    t = u ∧ x = y := by
  unfold typedJsonFieldExpr at heq
  cases ht : castType t with
  | none =>
    rw [ht] at heq
    cases hu : castType u with
    | none =>
      rw [hu] at heq
      exact ⟨castType_inj (ht.trans hu.symm), (List.cons.inj (List.append_cancel_left heq)).2⟩
    | some b =>
      rw [hu] at heq
      simp [jsonFieldExpr] at heq
  | some a =>
    rw [ht] at heq
    cases hu : castType u with
    | none =>
      rw [hu] at heq
      simp [jsonFieldExpr] at heq
    | some b =>
      rw [hu] at heq
      simp only [toList_append, List.append_assoc, List.append_cancel_left_eq] at heq
      exact castType_closed ht hu heq

theorem plain_ne_json {column key : String} (hplain : ∀ ch ∈ column.toList, (ch.isAlphanum || ch == '_') = true)
    (heq : column.toList ++ ' ' :: x = (typedJsonFieldExpr key t).toList ++ ' ' :: y) : False := by
  have hread := run_until (fun ch : Char => (ch.isAlphanum || ch == '_') = true) column.toList
  unfold typedJsonFieldExpr at heq
  cases hcast : castType t with
  | none =>
    rw [hcast] at heq
    have heq' : column.toList ++ ' ' :: x = ['d', 'a', 't', 'a'] ++ '-' ::
        (['>', '>', '\''] ++ (key.toList ++ '\'' :: ' ' :: y)) := by
      rw [heq]
      simp [jsonFieldExpr]
    have hdata : ∀ ch ∈ ['d', 'a', 't', 'a'], (ch.isAlphanum || ch == '_') = true :=
      List.all_eq_true.mp (by decide)
    obtain ⟨-, hclose, -⟩ := hread _ _ _ hplain hdata (by decide) (by decide) heq'
    cases hclose
  | some pgType =>
    rw [hcast] at heq
    have heq' : column.toList ++ ' ' :: x = [] ++ '(' ::
        ((jsonFieldExpr key).toList ++ (")::".toList ++ (pgType.toList ++ ' ' :: y))) := by
      rw [heq]
      simp
    obtain ⟨-, hclose, -⟩ := hread _ _ _ hplain (by simp) (by decide) (by decide) heq'
    cases hclose

/-- With plain native columns, the sort expression of a key is read up to the blank after it. -/
theorem sortExpr_closed {c d : OrderByClause}
    (hkey : toSnakeCase cc c.field = toSnakeCase cc d.field)
    (hc : ∀ column, c.nativeColumn = some column → ∀ ch ∈ column.toList, (ch.isAlphanum || ch == '_') = true)
    (hd : ∀ column, d.nativeColumn = some column → ∀ ch ∈ column.toList, (ch.isAlphanum || ch == '_') = true)
    (heq : (sortExpr cc c).toList ++ ' ' :: x = (sortExpr cc d).toList ++ ' ' :: y) :
    SameSort c d ∧ x = y := by
  unfold sortExpr at heq
  unfold SameSort
  cases hcolumn : c.nativeColumn with
  | some column =>
    rw [hcolumn] at heq
    cases hcolumn' : d.nativeColumn with
    | some column' =>
      rw [hcolumn'] at heq
      obtain ⟨hname, -, hxy⟩ := run_until (fun ch : Char => (ch.isAlphanum || ch == '_') = true) _ _ x y
        (hc column hcolumn) (hd column' hcolumn') (by decide) (by decide) heq
      exact ⟨⟨by rw [toList_inj.mp hname], fun hnone => by cases hnone⟩, hxy⟩
    | none =>
      rw [hcolumn'] at heq
      exact (plain_ne_json (hc column hcolumn) heq).elim
  | none =>
    rw [hcolumn] at heq
    cases hcolumn' : d.nativeColumn with
    | some column' =>
      rw [hcolumn'] at heq
      exact (plain_ne_json (hd column' hcolumn') heq.symm).elim
    | none =>
      rw [hcolumn', hkey] at heq
      obtain ⟨htype, hxy⟩ := typedJsonFieldExpr_closed heq
      exact ⟨⟨rfl, fun _ => htype⟩, hxy⟩

theorem orderText_closed (hkeys : List.Forall₂ (SameKey cc) cs ds)
    (hc : ∀ c ∈ cs, ∀ column, c.nativeColumn = some column →
      ∀ ch ∈ column.toList, (ch.isAlphanum || ch == '_') = true)
    (hd : ∀ d ∈ ds, ∀ column, d.nativeColumn = some column →
      ∀ ch ∈ column.toList, (ch.isAlphanum || ch == '_') = true)
    (first : Bool) (heq : orderText cc first cs = orderText cc first ds) : List.Forall₂ SameSort cs ds := by
  induction hkeys generalizing first with
  | nil => exact .nil
  | @cons c d cs ds hkey _ ih =>
    have hterm : (sortExpr cc c).toList ++
          ' ' :: ((directionSql c.direction).toList ++ (orderText cc false cs).toList) =
        (sortExpr cc d).toList ++
          ' ' :: ((directionSql d.direction).toList ++ (orderText cc false ds).toList) := by
      have hlist := congrArg String.toList heq
      rw [orderText, orderText] at hlist
      simpa [toList_append] using hlist
    obtain ⟨hsort, hrest⟩ := sortExpr_closed hkey.1 (hc c List.mem_cons_self) (hd d List.mem_cons_self) hterm
    rw [hkey.2, List.append_cancel_left_eq] at hrest
    exact .cons hsort (ih (fun c hmem => hc c (List.mem_cons_of_mem _ hmem))
      (fun d hmem => hd d (List.mem_cons_of_mem _ hmem)) false (toList_inj.mp hrest))

/-! ### The built reads -/

/-- The order clause as it stands in the SQL. -/
def orderSuffix (cc : WhereFilter.CharCase) (order : List OrderByClause) : String :=
  if order.isEmpty then "" else " ORDER BY " ++ orderText cc true order

theorem appendOrderBy_refused (cc : WhereFilter.CharCase) (h : ∃ c ∈ call.order, Refused c) (sql : String) :
    ∃ e, appendOrderBy cc sql call.orderBy = .error e := by
  unfold Call.order at h
  unfold appendOrderBy
  cases ho : call.orderBy.filter fun clauses => !clauses.isEmpty with
  | none =>
    rw [ho] at h
    obtain ⟨_, hmem, _⟩ := h
    cases hmem
  | some clauses =>
    rw [ho, getD_some] at h
    obtain ⟨e, he⟩ := pushOrderBy_refused cc h true (sql ++ " ORDER BY ")
    refine ⟨e, ?_⟩
    show (pushOrderBy cc true (sql ++ " ORDER BY ") clauses).map (true, ·) = _
    rw [he]
    rfl

theorem appendOrderBy_accepted (cc : WhereFilter.CharCase) (h : ∀ c ∈ call.order, ¬Refused c) (sql : String) :
    ∃ appended, appendOrderBy cc sql call.orderBy = .ok (appended, sql ++ orderSuffix cc call.order) := by
  unfold appendOrderBy Call.order at *
  cases ho : call.orderBy.filter fun clauses => !clauses.isEmpty with
  | none => exact ⟨false, by simp [orderSuffix]⟩
  | some clauses =>
    rw [ho, getD_some] at h
    have hne : clauses.isEmpty = false := by
      have hkept := (filter_eq_some_iff.mp ho).2
      simpa using hkept
    refine ⟨true, ?_⟩
    show (pushOrderBy cc true (sql ++ " ORDER BY ") clauses).map (true, ·) = _
    rw [pushOrderBy_accepted h]
    simp [orderSuffix, hne, Except.map, append_assoc]

/-- The text a bound adds depends on the number of parameters before it. -/
def boundText (keyword : String) (count : Nat) : Option Nat → String
  | none => ""
  | some _ => " " ++ keyword ++ " $" ++ toString (count + 1)

theorem appendBound_eq (keyword : String) (sql : String) (params : List QueryParam) (n : Option Nat) :
    appendBound keyword (sql, params) n =
      (sql ++ boundText keyword params.length n, params ++ n.toList.map fun n => .bigInt n) := by
  cases n with
  | none => simp [appendBound, boundText]
  | some n => simp [appendBound, boundText, append_assoc]

/-- The page as it stands in the SQL. -/
def pageText (count : Nat) (limit offset : Option Nat) : String :=
  boundText "LIMIT" count limit ++ boundText "OFFSET" (count + limit.toList.length) offset

/-- The start of a read. -/
def selectText (select view : String) : String :=
  "SELECT " ++ select ++ " FROM " ++ quotePostgresIdentifier view

section Built

variable (cc : WhereFilter.CharCase) {call : Call} (select : String) {sql : String}
  {params : List QueryParam}

theorem buildSelect_noSql (h : call.NoSql) :
    ∃ e, buildSelect cc select call.view call.whereClause call.limit call.offset call.orderBy = .error e := by
  obtain ⟨clause, e, hclause, herror⟩ := h
  refine ⟨e, ?_⟩
  unfold buildSelect appendWhere
  rw [hclause]
  simp only [herror]
  rfl

theorem appendWhere_ok (h : ¬call.NoSql) :
    ∃ sql params, appendWhere (selectText select call.view) call.whereClause = .ok (sql, params) := by
  cases hclause : call.whereClause with
  | none => exact ⟨_, _, rfl⟩
  | some clause =>
    cases hgen : WhereGenerator.generate (WhereGenerator.new .postgres) clause with
    | error e => exact absurd ⟨clause, e, hclause, hgen⟩ h
    | ok result =>
      unfold appendWhere
      simp only [hgen]
      exact ⟨_, _, rfl⟩

theorem buildSelect_refused
    (hwhere : appendWhere (selectText select call.view) call.whereClause = .ok (sql, params))
    (h : ∃ c ∈ call.order, Refused c) :
    ∃ e, buildSelect cc select call.view call.whereClause call.limit call.offset call.orderBy = .error e := by
  obtain ⟨e, he⟩ := appendOrderBy_refused cc h sql
  refine ⟨e, ?_⟩
  unfold buildSelect
  rw [show appendWhere ("SELECT " ++ select ++ " FROM " ++ quotePostgresIdentifier call.view)
    call.whereClause = .ok (sql, params) from hwhere]
  show (appendOrderBy cc sql call.orderBy >>= _) = _
  rw [he]
  rfl

theorem buildSelect_accepted
    (hwhere : appendWhere (selectText select call.view) call.whereClause = .ok (sql, params))
    (h : ∀ c ∈ call.order, ¬Refused c) :
    buildSelect cc select call.view call.whereClause call.limit call.offset call.orderBy =
      .ok (sql ++ orderSuffix cc call.order ++ pageText params.length call.limit call.offset,
        params ++ call.limit.toList.map (fun n => .bigInt n) ++
          call.offset.toList.map fun n => .bigInt n) := by
  obtain ⟨appended, happend⟩ := appendOrderBy_accepted cc h sql
  unfold buildSelect
  rw [show appendWhere ("SELECT " ++ select ++ " FROM " ++ quotePostgresIdentifier call.view)
    call.whereClause = .ok (sql, params) from hwhere]
  show (appendOrderBy cc sql call.orderBy >>= _) = _
  rw [happend]
  show Except.ok (appendBound "OFFSET" (appendBound "LIMIT" (sql ++ orderSuffix cc call.order, params)
    call.limit) call.offset) = _
  rw [appendBound_eq, appendBound_eq]
  simp [pageText, append_assoc]

end Built

/-- Two orders with the same keys are rendered alike when they sort alike. -/
theorem orderSuffix_same (hkeys : List.Forall₂ (SameKey cc) cs ds) (hsorts : List.Forall₂ SameSort cs ds) :
    orderSuffix cc cs = orderSuffix cc ds := by
  unfold orderSuffix
  rw [orderText_same hkeys hsorts true]
  cases hkeys with
  | nil => rfl
  | cons hkey hkeys => rfl

theorem orderSuffix_closed (hkeys : List.Forall₂ (SameKey cc) call.order call'.order) (hc : call.PlainColumns)
    (hd : call'.PlainColumns) (heq : orderSuffix cc call.order = orderSuffix cc call'.order) :
    List.Forall₂ SameSort call.order call'.order := by
  refine orderText_closed hkeys hc hd true ?_
  cases hcs : call.order with
  | nil =>
    rw [hcs] at hkeys
    rw [List.forall₂_nil_left_iff.mp hkeys]
  | cons c cs =>
    cases hds : call'.order with
    | nil =>
      rw [hcs, hds] at hkeys
      cases hkeys
    | cons d ds =>
      rw [hcs, hds] at heq
      have hlist := congrArg String.toList heq
      simp only [orderSuffix, List.isEmpty_cons, Bool.false_eq_true, if_false, toList_append,
        List.append_cancel_left_eq] at hlist
      exact toList_inj.mp hlist

/-- Reads that agree up to their order run the same SQL when there is none, or when they sort alike. -/
theorem buildSelect_same (hagree : Agree cc call call')
    (select : String) (h : call.NoSql ∨ SortsAlike call.order call'.order) :
    (buildSelect cc select call.view call.whereClause call.limit call.offset call.orderBy).toOption =
      (buildSelect cc select call'.view call'.whereClause call'.limit call'.offset call'.orderBy).toOption := by
  by_cases hnone : call.NoSql
  · have hnone' : call'.NoSql := by
      unfold Call.NoSql at *
      rw [← hagree.whereClause]
      exact hnone
    obtain ⟨e, he⟩ := buildSelect_noSql cc select hnone
    obtain ⟨e', he'⟩ := buildSelect_noSql cc select hnone'
    rw [he, he']
    rfl
  · obtain ⟨sql, params, hwhere⟩ := appendWhere_ok select hnone
    have hwhere' : appendWhere (selectText select call'.view) call'.whereClause = .ok (sql, params) := by
      rw [← hagree.view, ← hagree.whereClause]
      exact hwhere
    rcases h.resolve_left hnone with ⟨hrefused, hrefused'⟩ | ⟨haccepted, haccepted', hsorts⟩
    · obtain ⟨e, he⟩ := buildSelect_refused cc select hwhere hrefused
      obtain ⟨e', he'⟩ := buildSelect_refused cc select hwhere' hrefused'
      rw [he, he']
      rfl
    · rw [buildSelect_accepted cc select hwhere haccepted, buildSelect_accepted cc select hwhere' haccepted',
        orderSuffix_same hagree.order hsorts, hagree.limit, hagree.offset]

/-- With plain native columns nothing else makes them run the same SQL. -/
theorem sortsAlike_of_same (hagree : Agree cc call call')
    (hplain : call.PlainColumns) (hplain' : call'.PlainColumns) (select : String)
    (hsame : (buildSelect cc select call.view call.whereClause call.limit call.offset call.orderBy).toOption =
      (buildSelect cc select call'.view call'.whereClause call'.limit call'.offset call'.orderBy).toOption) :
    call.NoSql ∨ SortsAlike call.order call'.order := by
  by_cases hnone : call.NoSql
  · exact .inl hnone
  · right
    obtain ⟨sql, params, hwhere⟩ := appendWhere_ok select hnone
    have hwhere' : appendWhere (selectText select call'.view) call'.whereClause = .ok (sql, params) := by
      rw [← hagree.view, ← hagree.whereClause]
      exact hwhere
    by_cases hrefused : ∃ c ∈ call.order, Refused c
    · by_cases hrefused' : ∃ d ∈ call'.order, Refused d
      · exact .inl ⟨hrefused, hrefused'⟩
      · obtain ⟨e, he⟩ := buildSelect_refused cc select hwhere hrefused
        have haccepted' : ∀ d ∈ call'.order, ¬Refused d := by
          intro d hd hr
          exact hrefused' ⟨d, hd, hr⟩
        rw [he, buildSelect_accepted cc select hwhere' haccepted'] at hsame
        cases hsame
    · have haccepted : ∀ c ∈ call.order, ¬Refused c := by
        intro c hc hr
        exact hrefused ⟨c, hc, hr⟩
      by_cases hrefused' : ∃ d ∈ call'.order, Refused d
      · obtain ⟨e, he⟩ := buildSelect_refused cc select hwhere' hrefused'
        rw [he, buildSelect_accepted cc select hwhere haccepted] at hsame
        cases hsame
      · have haccepted' : ∀ d ∈ call'.order, ¬Refused d := by
          intro d hd hr
          exact hrefused' ⟨d, hd, hr⟩
        rw [buildSelect_accepted cc select hwhere haccepted, buildSelect_accepted cc select hwhere' haccepted', hagree.limit,
          hagree.offset] at hsame
        have htext := (Prod.mk.inj (some.inj hsame)).1
        rw [append_left_inj, append_right_inj] at htext
        exact .inr ⟨haccepted, haccepted', orderSuffix_closed hagree.order hplain hplain' htext⟩

/-- The SQL and the parameters of `execute_where_query`, when they can be built. -/
def Call.whereSql (cc : WhereFilter.CharCase) (call : Call) : Option (String × List QueryParam) :=
  (buildWhereSelectSqlOrdered cc call.view call.whereClause call.limit call.offset call.orderBy).toOption

/-- The SQL and the parameters of `execute_with_projection`, when they can be built. -/
def Call.projectionSql (cc : WhereFilter.CharCase) (call : Call) : Option (String × List QueryParam) :=
  (buildProjectionSql cc call.view call.projection call.whereClause call.limit call.offset
    call.orderBy).toOption

theorem viewKey_agree (cc : WhereFilter.CharCase) (hheld : call.Held)
    (hheld' : call'.Held) (htold : ToldApart pr call.nativeValues call'.nativeValues)
    (hkey : generateViewQueryKey pr cc call = generateViewQueryKey pr cc call') : Agree cc call call' := by
  obtain ⟨hview, hrest⟩ := List.cons.inj (List.cons.inj hkey).2
  exact hashRest_agree pr cc hheld hheld' htold (HashToken.bytes.inj hview) hrest

theorem projectionKey_agree (cc : WhereFilter.CharCase)
    (hheld : call.Held) (hheld' : call'.Held) (htold : ToldApart pr call.nativeValues call'.nativeValues)
    (hkey : generateProjectionQueryKey pr cc call = generateProjectionQueryKey pr cc call') :
    call.projection = call'.projection ∧ Agree cc call call' := by
  obtain ⟨hview, hrest⟩ := List.cons.inj (List.cons.inj hkey).2
  obtain ⟨hprojection, hrest⟩ := hashProjection_decodes _ _ trivial trivial _ _ (List.cons.inj hrest).2
  exact ⟨hprojection, hashRest_agree pr cc hheld hheld' htold (HashToken.bytes.inj hview) hrest⟩

/-- Reads with the same key tokens run the same SQL with the same parameters when their clause has no SQL or
their orders sort alike, and with plain native columns only then. -/
theorem key_sound_iff (pr : Printer) (cc : WhereFilter.CharCase) (call call' : Call) (hheld : call.Held)
    (hheld' : call'.Held) (htold : ToldApart pr call.nativeValues call'.nativeValues) :
    (generateViewQueryKey pr cc call = generateViewQueryKey pr cc call' →
      (call.NoSql ∨ SortsAlike call.order call'.order → call.whereSql cc = call'.whereSql cc) ∧
        (call.PlainColumns → call'.PlainColumns → call.whereSql cc = call'.whereSql cc →
          call.NoSql ∨ SortsAlike call.order call'.order)) ∧
    (generateProjectionQueryKey pr cc call = generateProjectionQueryKey pr cc call' →
      (call.NoSql ∨ SortsAlike call.order call'.order → call.projectionSql cc = call'.projectionSql cc) ∧
        (call.PlainColumns → call'.PlainColumns → call.projectionSql cc = call'.projectionSql cc →
          call.NoSql ∨ SortsAlike call.order call'.order)) := by
  constructor
  · intro hkey
    have hagree := viewKey_agree pr cc hheld hheld' htold hkey
    constructor
    · exact buildSelect_same hagree "data"
    · exact fun hplain hplain' => sortsAlike_of_same hagree hplain hplain' "data"
  · intro hkey
    obtain ⟨hprojection, hagree⟩ := projectionKey_agree pr cc hheld hheld' htold hkey
    unfold Call.projectionSql buildProjectionSql
    rw [← hprojection]
    cases call.projection with
    | none =>
      constructor
      · exact buildSelect_same hagree "data"
      · exact fun hplain hplain' => sortsAlike_of_same hagree hplain hplain' "data"
    | some template =>
      constructor
      · exact buildSelect_same hagree template
      · exact fun hplain hplain' => sortsAlike_of_same hagree hplain hplain' template

/-- A read of the users by one clause. -/
def sortedUsers (clause : OrderByClause) : Call :=
  ⟨"v_user", none, none, some 10, none, some [clause], "1"⟩

/-- A printer of JSON values, with nothing to print in the reads below. -/
def valuePrinter : Printer := ⟨fun _ => false, fun value => value.text.toList⟩

/-- The same field in camel case and in snake case. -/
theorem key_sound_camel_snake :
    (sortedUsers (.new "createdAt" .asc)).whereSql .ascii =
      (sortedUsers (.new "created_at" .asc)).whereSql .ascii := by
  have hheld : ∀ clause, (sortedUsers clause).Held := by
    intro clause c hc
    cases hc
  have haccepted : ∀ field, OrderByClause.validateFieldName field = .ok () →
      ∀ c ∈ (sortedUsers (.new field .asc)).order, ¬Refused c := by
    intro field hfield c hmem
    obtain rfl := List.mem_singleton.mp hmem
    rintro ⟨e, he⟩
    rw [show (OrderByClause.new field .asc).field = field from rfl, hfield] at he
    cases he
  refine ((key_sound_iff valuePrinter .ascii (sortedUsers (.new "createdAt" .asc))
    (sortedUsers (.new "created_at" .asc)) (hheld _) (hheld _) ?_).1 (by decide)).1 (Or.inr (Or.inr ?_))
  · intro v hv
    cases hv
  · refine ⟨haccepted _ (by rfl), haccepted _ (by rfl), ?_⟩
    exact .cons ⟨rfl, fun _ => rfl⟩ .nil

/-- The field of the schema sorts as a time, its storage name as text. -/
theorem same_key_other_sql :
    ¬∀ (pr : Printer) (cc : WhereFilter.CharCase) (call call' : Call), call.Held → call'.Held →
      generateViewQueryKey pr cc call = generateViewQueryKey pr cc call' →
        call.whereSql cc = call'.whereSql cc := by
  intro hall
  have hsame := hall valuePrinter .ascii (sortedUsers ⟨"createdAt", .asc, .dateTime, none⟩)
    (sortedUsers ⟨"created_at", .asc, .text, none⟩) (by intro c hc; cases hc) (by intro c hc; cases hc)
    (by decide)
  have htext := congrArg (Option.map Prod.fst) hsame
  revert htext
  decide

end FraiseQL.CacheKey
