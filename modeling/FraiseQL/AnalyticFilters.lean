import FraiseQL.AggregateQuery
import FraiseQL.WindowQuery
import Mathlib.Data.List.TakeWhile

/-! The filters of analytic queries (`runtime/aggregate_parser.rs`, `runtime/window_parser.rs`). The keys of a `where`
object are a field and an operator with an underscore between them. They are split at the last underscore, so an
operator that has an underscore of its own is never found, and what is found no operator is left out. -/

namespace FraiseQL.AnalyticFilters

open WhereClause

/-- A text without underscore behind the last underscore. -/
theorem splitLastUnderscore_append (f : String) {o : String} (h : '_' ∉ o.toList) :
    splitLastUnderscore (f ++ "_" ++ o) = some (f, o) := by
  have hchars : (f ++ "_" ++ o).toList = f.toList ++ '_' :: o.toList := by simp
  have htake : (f ++ "_" ++ o).toList.reverse.takeWhile (· ≠ '_') = o.toList.reverse := by
    have hclear : ∀ c ∈ o.toList.reverse, decide (c ≠ '_') = true := fun c hc =>
      decide_eq_true fun heq => h (heq ▸ List.mem_reverse.mp hc)
    rw [hchars, List.reverse_append, List.reverse_cons, List.append_assoc, List.singleton_append,
      List.takeWhile_append_of_pos hclear, List.takeWhile_cons_of_neg (by simp), List.append_nil]
  have hlength : (f ++ "_" ++ o).toList.length = f.toList.length + (o.toList.length + 1) := by
    rw [hchars, List.length_append, List.length_cons]
  rw [splitLastUnderscore]
  simp only [htake, List.reverse_reverse, hlength]
  rw [if_neg (by omega), show f.toList.length + (o.toList.length + 1) - o.toList.length - 1 = f.toList.length by omega,
    hchars, List.take_left, String.ofList_toList, String.ofList_toList]

/-- What is found behind the last underscore has none. -/
theorem splitLastUnderscore_eq_some {key f o : String} (h : splitLastUnderscore key = some (f, o)) :
    '_' ∉ o.toList ∧ key = f ++ "_" ++ o := by
  rw [splitLastUnderscore] at h
  set last := (key.toList.reverse.takeWhile (· ≠ '_')).reverse with hlast
  split_ifs at h with hall
  obtain ⟨rfl, rfl⟩ := Prod.mk.inj (Option.some.inj h)
  have hclear : '_' ∉ last := fun hmem => by
    simpa using List.mem_takeWhile_imp (List.mem_reverse.mp hmem)
  have hrest := (List.takeWhile_append_dropWhile (p := fun c : Char => decide (c ≠ '_')) (l := key.toList.reverse))
  cases hdrop : key.toList.reverse.dropWhile (fun c => decide (c ≠ '_')) with
  | nil =>
    rw [hdrop, List.append_nil] at hrest
    exact absurd (by rw [hlast, List.length_reverse, hrest, List.length_reverse]) hall
  | cons c before =>
    have hc : c = '_' := by
      have hnot := List.head?_dropWhile_not (fun c : Char => decide (c ≠ '_')) key.toList.reverse
      rw [hdrop] at hnot
      simpa using hnot
    have hkey : key.toList = before.reverse ++ '_' :: last := by
      rw [hdrop, hc] at hrest
      rw [← List.reverse_reverse key.toList, ← hrest, List.reverse_append, List.reverse_cons, List.append_assoc,
        List.singleton_append, hlast]
    have hcut : key.toList.length - last.length - 1 = before.reverse.length := by
      rw [hkey, List.length_append, List.length_cons]
      omega
    refine ⟨by rwa [String.toList_ofList], String.toList_injective ?_⟩
    rw [hcut, hkey, List.take_left]
    simp

/-- The texts that `parse_where_field_and_operator` returns. -/
def splitKey (key : String) : Option (String × String) :=
  (splitLastUnderscore key).filter fun parts => (WhereOperator.fromStr parts.2).isOk

/-- An operator is split off exactly when it has no underscore. -/
theorem splitKey_append (f : String) {o : String} (ho : (WhereOperator.fromStr o).isOk) :
    splitKey (f ++ "_" ++ o) = some (f, o) ↔ '_' ∉ o.toList := by
  rw [splitKey, Option.filter_eq_some_iff]
  constructor
  · rintro ⟨hsplit, -⟩
    exact (splitLastUnderscore_eq_some hsplit).1
  · intro h
    exact ⟨splitLastUnderscore_append f h, ho⟩

/-- A key with an operator without underscore behind its last underscore. -/
def Recognised (key : String) : Prop :=
  ∃ f o, key = f ++ "_" ++ o ∧ '_' ∉ o.toList ∧ (WhereOperator.fromStr o).isOk

theorem parseWhereFieldAndOperator_isSome (key : String) :
    (parseWhereFieldAndOperator key).isSome ↔ Recognised key := by
  rw [parseWhereFieldAndOperator]
  constructor
  · intro h
    cases hsplit : splitLastUnderscore key with
    | none =>
      rw [hsplit] at h
      cases h
    | some parts =>
      obtain ⟨f, o⟩ := parts
      obtain ⟨hclear, hkey⟩ := splitLastUnderscore_eq_some hsplit
      rw [hsplit] at h
      dsimp only at h
      refine ⟨f, o, hkey, hclear, ?_⟩
      cases hop : WhereOperator.fromStr o with
      | ok op => rfl
      | error e =>
        rw [hop] at h
        cases h
  · rintro ⟨f, o, rfl, hclear, ho⟩
    obtain ⟨op, hop⟩ := Outcome.isOk_iff.mp ho
    rw [splitLastUnderscore_append f hclear]
    dsimp only
    rw [hop]
    rfl

/-- A condition on the field and with the operator that were split off the key, and with the value under it. -/
def ConditionOf (entry : String × Json) (clause : WhereClause) : Prop :=
  ∃ field operator, parseWhereFieldAndOperator entry.1 = some (field, operator) ∧
    (clause = .field [field] operator entry.2 ∨ ∃ pgCast, clause = .nativeField field pgCast operator entry.2)

/-- A conjunction with one condition for each key. -/
def OneForEachKey (value : Json) (clause : WhereClause) : Prop :=
  ∃ conditions, clause = .and conditions ∧ List.Forall₂ ConditionOf (value.asObject?.getD []) conditions

def keys (value : Json) : List String := (value.asObject?.getD []).map Prod.fst

/-- Either parser, by the condition it makes. -/
theorem parseWhereObject_iff {condition : String → WhereOperator → Json → WhereClause}
    (hcondition : ∀ entry field operator, parseWhereFieldAndOperator entry.1 = some (field, operator) →
      ConditionOf entry (condition field operator entry.2)) (value : Json) :
    OneForEachKey value (parseWhereObject condition value) ↔ ∀ key ∈ keys value, Recognised key := by
  have hmap : parseWhereObject condition value = .and ((value.asObject?.getD []).filterMap fun entry =>
      (parseWhereFieldAndOperator entry.1).map fun parts => condition parts.1 parts.2 entry.2) := by
    rw [parseWhereObject]
    cases value.asObject? <;> rfl
  rw [hmap, OneForEachKey, keys, List.forall_mem_map]
  simp only [← parseWhereFieldAndOperator_isSome]
  generalize value.asObject?.getD [] = entries
  constructor
  · rintro ⟨conditions, -, hall⟩
    induction hall with
    | nil => exact nofun
    | cons hclause _ ih =>
      obtain ⟨field, operator, hsplit, -⟩ := hclause
      exact List.forall_mem_cons.mpr ⟨by rw [hsplit]; rfl, ih⟩
  · intro hall
    refine ⟨_, rfl, ?_⟩
    induction entries with
    | nil => exact List.Forall₂.nil
    | cons entry entries ih =>
      obtain ⟨⟨field, operator⟩, hsplit⟩ := Option.isSome_iff_exists.mp (hall entry List.mem_cons_self)
      rw [List.filterMap_cons, hsplit]
      exact .cons (hcondition entry field operator hsplit) (ih fun e he => hall e (List.mem_cons_of_mem _ he))

/-- The parsers make one condition for each key exactly when every key ends in an operator without underscore, and these
are the operators that are split off. -/
theorem analytic_filters_iff (nativeColumns : List (String × PgCast)) (value : Json) (f o : String) :
    (OneForEachKey value (Aggregate.QueryParser.parseWhereClause nativeColumns value) ↔
      ∀ key ∈ keys value, Recognised key) ∧
    (OneForEachKey value (Window.QueryParser.parseWhereClause value) ↔ ∀ key ∈ keys value, Recognised key) ∧
    ((WhereOperator.fromStr o).isOk → (splitKey (f ++ "_" ++ o) = some (f, o) ↔ '_' ∉ o.toList)) := by
  refine ⟨parseWhereObject_iff ?_ value, parseWhereObject_iff ?_ value, splitKey_append f⟩
  · intro entry field operator hsplit
    refine ⟨field, operator, hsplit, ?_⟩
    cases nativeColumns.lookup field with
    | none => exact .inl rfl
    | some pgCast => exact .inr ⟨pgCast, rfl⟩
  · intro entry field operator hsplit
    exact ⟨field, operator, hsplit, .inl rfl⟩

theorem analytic_filters_eq : splitKey ("customer_id" ++ "_" ++ "eq") = some ("customer_id", "eq") :=
  ((analytic_filters_iff [] .null "customer_id" "eq").2.2 rfl).mpr (by decide)

/-- A filter on the length of an array is dropped, as is one whose operator is misspelt. -/
theorem analytic_filters_dropped :
    (¬∀ value, OneForEachKey value (Aggregate.QueryParser.parseWhereClause [] value)) ∧
    (¬∀ value, OneForEachKey value (Window.QueryParser.parseWhereClause value)) ∧
    splitKey "tags_array_contains" ≠ some ("tags", "array_contains") := by
  refine ⟨fun h => ?_, fun h => ?_, by decide⟩
  · obtain ⟨conditions, hand, hall⟩ := h (.obj [("tags_len_eq", .str "2"), ("status_equals", .str "x")])
    obtain rfl := and.inj ((by rfl : and
      [.field ["tags_len"] .eq (.str "2")] = _).trans hand)
    cases hall with
    | cons _ hrest => cases hrest
  · obtain ⟨conditions, hand, hall⟩ := h (.obj [("tags_array_contained_by", .str "2")])
    obtain rfl := and.inj ((by rfl : and [] = _).trans hand)
    cases hall

end FraiseQL.AnalyticFilters
