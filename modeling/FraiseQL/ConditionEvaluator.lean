import FraiseQL.BinaryRounding
import FraiseQL.ConditionGrammar
import FraiseQL.Json
import Mathlib.Algebra.Order.Field.Rat
import Mathlib.Data.Rat.Cast.Order
import Mathlib.Order.Compare

/-!
Conditions evaluated against an event (`fraiseql-observers/src/condition/{mod,evaluator}.rs`). Two values are equal when
they are the same JSON; they are ordered as integers where both are `i64` and otherwise as doubles. The literal of a
comparison is read as JSON, with or without its quotes, and taken as a string only where it is none. The comparisons of
two numbers are those of one order exactly when no two different numbers are one double, and a quoted literal is
compared as it is written where it is no JSON text.
-/

namespace FraiseQL.ConditionDsl

open List Option

/-! ### JSON values -/

/-- A finite double, by its value; the two zeros are one. -/
@[ext] structure Double where
  value : ℚ
  finite : ∃ m e : ℤ, |m| < 2 ^ 53 ∧ -1074 ≤ e ∧ e ≤ 971 ∧ value = m * 2 ^ e
  deriving DecidableEq

/-- `f64::partial_cmp`; a number of JSON is never NaN. -/
def Double.partialCmp (l r : Double) : Option Ordering := some (compare l.value r.value)

theorem roundInt_finite (n : JsonInt) : ∃ m e : ℤ, |m| < 2 ^ 53 ∧ -1074 ≤ e ∧ e ≤ 971 ∧
    (BinaryRounding.roundInt 53 n.value : ℚ) = m * 2 ^ e := by
  obtain ⟨m, k, hm, hk, hround⟩ := BinaryRounding.roundInt_digits (p := 53) (by decide) n.value
  have hlog : n.value.natAbs.log2 ≤ 64 := by
    have hrange := n.range
    have hmono := BinaryRounding.log2_mono (m := n.value.natAbs) (n := 2 ^ 64) (by omega)
    rwa [Nat.log2_two_pow] at hmono
  refine ⟨m, k, ?_, by omega, by omega, ?_⟩
  · rw [Int.abs_eq_natAbs]
    exact_mod_cast hm
  · rw [hround]
    push_cast
    rfl

/-- An integer as a double, to the nearest. -/
def Double.ofInt (n : JsonInt) : Double where
  value := BinaryRounding.roundInt 53 n.value
  finite := roundInt_finite n

inductive Number where
  | int (n : JsonInt)
  | float (x : Double)
  deriving DecidableEq

/-- `serde_json::Value`; an object has its entries in map order. -/
inductive Value where
  | null
  | bool (b : Bool)
  | number (n : Number)
  | string (s : String)
  | array (items : List Value)
  | object (entries : List (String × Value))

namespace Value

mutual

/-- The same JSON. -/
def eq : Value → Value → Bool
  | .null, .null => true
  | .bool a, .bool b => a == b
  | .number a, .number b => decide (a = b)
  | .string a, .string b => a == b
  | .array as, .array bs => eqItems as bs
  | .object as, .object bs => eqEntries as bs
  | _, _ => false

def eqItems : List Value → List Value → Bool
  | [], [] => true
  | a :: as, b :: bs => eq a b && eqItems as bs
  | _, _ => false

def eqEntries : List (String × Value) → List (String × Value) → Bool
  | [], [] => true
  | (k, a) :: as, (l, b) :: bs => k == l && eq a b && eqEntries as bs
  | _, _ => false

end

mutual

theorem eq_iff (a b : Value) : eq a b = true ↔ a = b := by
  cases a with
  | array as =>
    cases b with
    | array bs =>
      rw [eq, eqItems_iff as bs, array.injEq]
    | _ => simp [eq]
  | object as =>
    cases b with
    | object bs =>
      rw [eq, eqEntries_iff as bs, object.injEq]
    | _ => simp [eq]
  | _ => cases b <;> simp [eq]

theorem eqItems_iff (as bs : List Value) : eqItems as bs = true ↔ as = bs := by
  cases as with
  | nil => cases bs <;> simp [eqItems]
  | cons a as =>
    cases bs with
    | nil => simp [eqItems]
    | cons b bs =>
      rw [eqItems, Bool.and_eq_true, eq_iff a b, eqItems_iff as bs, cons.injEq]

theorem eqEntries_iff (as bs : List (String × Value)) : eqEntries as bs = true ↔ as = bs := by
  cases as with
  | nil => cases bs <;> simp [eqEntries]
  | cons a as =>
    obtain ⟨k, a⟩ := a
    cases bs with
    | nil => simp [eqEntries]
    | cons b bs =>
      obtain ⟨l, b⟩ := b
      rw [eqEntries, Bool.and_eq_true, Bool.and_eq_true, eq_iff a b, eqEntries_iff as bs, cons.injEq,
        Prod.mk.injEq, beq_iff_eq]

end

instance : DecidableEq Value := fun a b => decidable_of_iff (eq a b = true) (eq_iff a b)

/-- `Value::get` with a key. -/
def get (v : Value) (key : String) : Option Value :=
  match v with
  | .object entries => entries.lookup key
  | _ => none

def asI64 : Value → Option ℤ
  | .number (.int n) => if n.value < 2 ^ 63 then some n.value else none
  | _ => none

def asF64 : Value → Option Double
  | .number (.int n) => some (.ofInt n)
  | .number (.float x) => some x
  | _ => none

end Value

/-! ### Events -/

structure FieldChanges where
  old : Value
  new : Value

/-- `EntityEvent`, with the fields that conditions read. -/
structure EntityEvent where
  data : Value
  changes : Option (List (String × FieldChanges))

namespace EntityEvent

variable (event : EntityEvent) (fieldName : String)

def change : Option FieldChanges := event.changes.bind fun changes => changes.lookup fieldName

def fieldChanged : Bool := (event.change fieldName).isSome

def fieldChangedTo (expectedValue : Value) : Bool :=
  (event.change fieldName).any fun change => decide (change.new = expectedValue)

def fieldChangedFrom (expectedValue : Value) : Bool :=
  (event.change fieldName).any fun change => decide (change.old = expectedValue)

end EntityEvent

/-! ### Evaluator -/

/-- `serde_json::from_str`. The text of a string has quotation marks around it, so that it is longer than the string. -/
structure JsonText where
  fromStr : String → Option Value
  string_shorter : ∀ text s, fromStr text = some (.string s) → s.length < text.length

section Evaluator

variable (json : JsonText)

/-- The value of a literal: what it says as JSON, or else the string. -/
def literal (value : String) : Value := (json.fromStr value).getD (.string value)

def compareOrdered (left right : Value) (f : Ordering → Bool) : Except ObserverError Bool :=
  match left.asI64, right.asI64 with
  | some l, some r => .ok (f (compare l r))
  | _, _ =>
    match left.asF64 with
    | none => invalid "Left value is not a number"
    | some l =>
      match right.asF64 with
      | none => invalid "Right value is not a number"
      | some r =>
        match l.partialCmp r with
        | none => invalid "Cannot compare NaN values"
        | some ord => .ok (f ord)

def evalComparison (field op value : String) (event : EntityEvent) : Except ObserverError Bool :=
  match event.data.get field with
  | none => invalid s!"Field not found: {field}"
  | some eventValue =>
    let valueParsed := literal json value
    match op with
    | "==" => .ok (decide (eventValue = valueParsed))
    | "!=" => .ok (decide (eventValue ≠ valueParsed))
    | ">" => compareOrdered eventValue valueParsed Ordering.isGT
    | "<" => compareOrdered eventValue valueParsed Ordering.isLT
    | ">=" => compareOrdered eventValue valueParsed Ordering.isGE
    | "<=" => compareOrdered eventValue valueParsed Ordering.isLE
    | _ => invalid s!"Unknown operator: {op}"

def evalHasField (field : String) (event : EntityEvent) : Bool := (event.data.get field).isSome

def evaluate (ast : ConditionAst) (event : EntityEvent) : Except ObserverError Bool :=
  match ast with
  | .comparison field op value => evalComparison json field op value event
  | .hasField field => .ok (evalHasField field event)
  | .fieldChanged field => .ok (event.fieldChanged field)
  | .fieldChangedTo field value => .ok (event.fieldChangedTo field (literal json value))
  | .fieldChangedFrom field value => .ok (event.fieldChangedFrom field (literal json value))
  | .and left right =>
    match evaluate left event with
    | .error e => .error e
    | .ok true => evaluate right event
    | .ok false => .ok false
  | .or left right =>
    match evaluate left event with
    | .error e => .error e
    | .ok true => .ok true
    | .ok false => evaluate right event
  | .not expr => (evaluate expr event).map (! ·)

def parseAndEvaluate (alphabet : Alphabet) (condition : String) (event : EntityEvent) : Except ObserverError Bool :=
  match parse alphabet condition with
  | .error e => .error e
  | .ok ast => evaluate json ast event

end Evaluator

/-! ### Numbers -/

namespace Number

def asI64 (n : Number) : Option ℤ := (Value.number n).asI64

def asF64 : Number → Double
  | .int n => .ofInt n
  | .float x => x

/-- How two numbers are ordered. -/
def order (l r : Number) : Ordering :=
  match l.asI64, r.asI64 with
  | some a, some b => compare a b
  | _, _ => compare l.asF64.value r.asF64.value

/-- Two numbers that are both `i64`, the same JSON, or different doubles. -/
def ToldApart (l r : Number) : Prop := (l.asI64.isSome ∧ r.asI64.isSome) ∨ l = r ∨ l.asF64 ≠ r.asF64

theorem compareOrdered_number (l r : Number) (f : Ordering → Bool) :
    compareOrdered (.number l) (.number r) f = .ok (f (l.order r)) := by
  have hdouble : ∀ n : Number, (Value.number n).asF64 = some n.asF64 := by
    intro n
    cases n <;> rfl
  rw [compareOrdered, order, hdouble, hdouble]
  unfold asI64
  split <;> rfl

theorem asI64_eq_some {n : Number} {a : ℤ} (h : n.asI64 = some a) : ∃ i : JsonInt, n = .int i ∧ i.value = a := by
  cases n with
  | int i =>
    rw [asI64, Value.asI64] at h
    split_ifs at h
    exact ⟨i, rfl, some.inj h⟩
  | float x => cases h

theorem int_inj {m n : JsonInt} : Number.int m = .int n ↔ m.value = n.value := by
  obtain ⟨a, ha⟩ := m
  obtain ⟨b, hb⟩ := n
  simp

/-- Numbers are ordered as integers, or by their doubles. -/
theorem order_cases (l r : Number) :
    (l.asI64.isSome ∧ r.asI64.isSome ∧ ∃ m n, l = .int m ∧ r = .int n ∧ l.order r = compare m.value n.value) ∨
      (¬ (l.asI64.isSome ∧ r.asI64.isSome) ∧ l.order r = compare l.asF64.value r.asF64.value) := by
  rw [order]
  split
  · rename_i a b ha hb
    obtain ⟨m, rfl, rfl⟩ := asI64_eq_some ha
    obtain ⟨n, rfl, rfl⟩ := asI64_eq_some hb
    exact .inl ⟨by rw [ha]; rfl, by rw [hb]; rfl, m, n, rfl, rfl, rfl⟩
  · rename_i hnone
    refine .inr ⟨?_, rfl⟩
    rintro ⟨hl, hr⟩
    obtain ⟨a, ha⟩ := isSome_iff_exists.mp hl
    obtain ⟨b, hb⟩ := isSome_iff_exists.mp hr
    exact hnone a b ha hb

/-- The order calls two numbers equal that are the same JSON, and no others, exactly if it tells them apart. -/
theorem toldApart_iff {l r : Number} : ToldApart l r ↔ (l.order r = .eq ↔ l = r) := by
  rcases order_cases l r with ⟨hl, hr, m, n, rfl, rfl, horder⟩ | ⟨hnone, horder⟩
  · rw [horder, compare_eq_iff_eq, int_inj]
    exact iff_of_true (.inl ⟨hl, hr⟩) Iff.rfl
  · rw [horder, compare_eq_iff_eq]
    constructor
    · rintro (hsome | rfl | hne)
      · exact absurd hsome hnone
      · exact iff_of_true rfl rfl
      · refine iff_of_false (fun h => hne (Double.ext h)) ?_
        rintro rfl
        exact hne rfl
    · intro h
      by_cases hvalue : l.asF64.value = r.asF64.value
      · exact .inr (.inl (h.mp hvalue))
      · exact .inr (.inr fun heq => hvalue (congrArg Double.value heq))

/-- Integers that are told apart are ordered as integers, since rounding keeps their order. -/
theorem order_int {m n : JsonInt} (h : ToldApart (.int m) (.int n)) :
    (Number.int m).order (.int n) = compare m.value n.value := by
  rcases order_cases (.int m) (.int n) with ⟨-, -, m', n', hm, hn, horder⟩ | ⟨-, horder⟩
  · cases hm
    cases hn
    exact horder
  · have heq := toldApart_iff.mp h
    rw [horder, compare_eq_iff_eq, int_inj] at heq
    have hmono : ∀ i j : JsonInt, i.value ≤ j.value → (Number.int i).asF64.value ≤ (Number.int j).asF64.value := by
      intro i j hij
      exact Int.cast_le.mpr (BinaryRounding.roundInt_mono (by decide) hij)
    rw [horder]
    rcases lt_trichotomy m.value n.value with hlt | heq' | hgt
    · rw [compare_lt_iff_lt.mpr hlt, compare_lt_iff_lt]
      exact lt_of_le_of_ne (hmono m n hlt.le) fun hdouble => hlt.ne (heq.mp hdouble)
    · rw [compare_eq_iff_eq.mpr heq', compare_eq_iff_eq]
      exact heq.mpr heq'
    · rw [compare_gt_iff_gt.mpr hgt, compare_gt_iff_gt]
      exact lt_of_le_of_ne (hmono n m hgt.le) fun hdouble => hgt.ne (heq.mp hdouble.symm).symm

end Number

/-! ### A number compared with a number -/

section Numbers

variable {json : JsonText} {event : EntityEvent} {field value : String} {f v : Number}

/-- What a comparison of the field with the literal answers. -/
def Says (json : JsonText) (event : EntityEvent) (field value op : String) : Prop :=
  evaluate json (.comparison field op value) event = .ok true

/-- The comparisons of the field with the literal are those of one order, and for integers of theirs. -/
structure Ordered (json : JsonText) (event : EntityEvent) (field value : String) (f v : Number) : Prop where
  one : (Says json event field value "<" ∧ ¬ Says json event field value "==" ∧ ¬ Says json event field value ">") ∨
    (¬ Says json event field value "<" ∧ Says json event field value "==" ∧ ¬ Says json event field value ">") ∨
    (¬ Says json event field value "<" ∧ ¬ Says json event field value "==" ∧ Says json event field value ">")
  le : Says json event field value "<=" ↔ Says json event field value "<" ∨ Says json event field value "=="
  ne : Says json event field value "!=" ↔ ¬ Says json event field value "=="
  integers : ∀ m n : JsonInt, f = .int m → v = .int n →
    (Says json event field value "<" ↔ m.value < n.value) ∧ (Says json event field value "==" ↔ m.value = n.value) ∧
    (Says json event field value ">" ↔ n.value < m.value) ∧ (Says json event field value "<=" ↔ m.value ≤ n.value) ∧
    (Says json event field value ">=" ↔ n.value ≤ m.value)

/-- The answer to a comparison of two numbers. -/
def answer (op : String) (f v : Number) : Bool :=
  match op with
  | "==" => decide (f = v)
  | "!=" => decide (f ≠ v)
  | ">" => (f.order v).isGT
  | "<" => (f.order v).isLT
  | ">=" => (f.order v).isGE
  | "<=" => (f.order v).isLE
  | _ => false

section

variable (hfield : event.data.get field = some (.number f))
include hfield

/-- Numbers are compared by every operator. -/
theorem evaluate_number (hvalue : json.fromStr value = some (.number v)) {op : String} (hop : op ∈ operators) :
    evaluate json (.comparison field op value) event = .ok (answer op f v) := by
  have hliteral : literal json value = .number v := by
    rw [literal, hvalue]
    rfl
  have hsame : (Value.number f = .number v) = (f = v) := Value.number.injEq f v
  rw [evaluate, evalComparison, hfield]
  simp only [operators, mem_cons, not_mem_nil, or_false] at hop
  rcases hop with rfl | rfl | rfl | rfl | rfl | rfl
  · simp only [hliteral, hsame, answer]
  · simp only [hliteral, ne_eq, hsame, answer]
  · simp only [hliteral, Number.compareOrdered_number, answer]
  · simp only [hliteral, Number.compareOrdered_number, answer]
  · simp only [hliteral, Number.compareOrdered_number, answer]
  · simp only [hliteral, Number.compareOrdered_number, answer]

theorem says_iff (hvalue : json.fromStr value = some (.number v)) {op : String} (hop : op ∈ operators) :
    Says json event field value op ↔ answer op f v = true := by
  rw [Says, evaluate_number hfield hvalue hop, Except.ok.injEq]

/-- The comparisons are those of one order exactly if the order tells the numbers apart. -/
theorem ordered_iff
    (hvalue : json.fromStr value = some (.number v)) : Ordered json event field value f v ↔ f.ToldApart v := by
  have hlt : Says json event field value "<" ↔ f.order v = .lt := by
    rw [says_iff hfield hvalue (by decide), answer, Ordering.isLT_iff_eq_lt]
  have heq : Says json event field value "==" ↔ f = v := by
    rw [says_iff hfield hvalue (by decide), answer, decide_eq_true_eq]
  have hgt : Says json event field value ">" ↔ f.order v = .gt := by
    rw [says_iff hfield hvalue (by decide), answer, Ordering.isGT_iff_eq_gt]
  have hle : Says json event field value "<=" ↔ f.order v ≠ .gt := by
    rw [says_iff hfield hvalue (by decide), answer, Ordering.isLE_iff_ne_gt]
  have hge : Says json event field value ">=" ↔ f.order v ≠ .lt := by
    rw [says_iff hfield hvalue (by decide), answer, Ordering.isGE_iff_ne_lt]
  have hne : Says json event field value "!=" ↔ f ≠ v := by
    rw [says_iff hfield hvalue (by decide), answer, decide_eq_true_eq]
  constructor
  · intro hordered
    have hone := hordered.one
    rw [hlt, heq, hgt] at hone
    rw [Number.toldApart_iff]
    cases horder : f.order v <;> simp_all
  · intro hapart
    have hsame := Number.toldApart_iff.mp hapart
    refine ⟨?_, ?_, ?_, ?_⟩
    · rw [hlt, heq, hgt, ← hsame]
      cases f.order v <;> simp
    · rw [hle, hlt, heq, ← hsame]
      cases f.order v <;> simp
    · rw [hne, heq]
    · rintro m n rfl rfl
      rw [hlt, heq, hgt, hle, hge, Number.order_int hapart, compare_lt_iff_lt, Number.int_inj, compare_gt_iff_gt,
        compare_le_iff_le, compare_ge_iff_ge]
      exact ⟨Iff.rfl, Iff.rfl, Iff.rfl, Iff.rfl, Iff.rfl⟩

end

end Numbers

/-! ### A string compared with a quoted literal -/

section Strings

variable {json : JsonText} {alphabet : Alphabet} {event : EntityEvent} {field op value text s : String}

/-- The texts that compare a field with a quoted literal. -/
def QuotedComparison (field op value text : String) : Prop :=
  ∃ before after, Spaces before ∧ Spaces after ∧
    text.toList = field.toList ++ (before ++ (op.toList ++ (after ++ '\'' :: (value.toList ++ ['\'']))))

/-- The answer to a comparison of two strings. -/
def stringAnswer (op s t : String) : Bool :=
  match op with
  | "==" => decide (s = t)
  | "!=" => decide (s ≠ t)
  | ">" => decide (t < s)
  | "<" => decide (s < t)
  | ">=" => decide (t ≤ s)
  | "<=" => decide (s ≤ t)
  | _ => false

/-- A literal that is no JSON text, or that is another string than the field by its text and by what it says as JSON. -/
def ReadAsString (json : JsonText) (s value : String) : Prop :=
  json.fromStr value = none ∨ (s ≠ value ∧ json.fromStr value ≠ some (.string s))

theorem parse_quoted (hfield : IsIdentifier alphabet field.toList) (hop : op ∈ operators)
    (hvalue : Unquoted value.toList) (htext : QuotedComparison field op value text)
    (hlength : RustText.byteLength text.toList ≤ maxConditionInputBytes) :
    parse alphabet text = .ok (.comparison field op value) := by
  obtain ⟨before, after, hbefore, hafter, htext⟩ := htext
  have hlexeme := Lexeme.comparison hfield hbefore hop hafter (.quoted hvalue)
  rw [String.ofList_toList, String.ofList_toList, ← htext] at hlexeme
  exact (parse_eq_ok_iff hlength).mpr
    ⟨_, _, .operandOr (.operandAnd (.primary (.lexeme hlexeme (.comparison field op value))))⟩

/-- A literal is the string of its text exactly as far as it is told from the field as that string. -/
theorem readAsString_iff : ReadAsString json s value ↔ (Value.string s = literal json value ↔ s = value) := by
  rw [ReadAsString, literal]
  cases hjson : json.fromStr value with
  | none =>
    rw [getD_none, Value.string.injEq]
    exact iff_of_true (.inl rfl) Iff.rfl
  | some w =>
    rw [getD_some]
    constructor
    · rintro (hnone | ⟨hne, hother⟩)
      · cases hnone
      · refine iff_of_false ?_ hne
        rintro rfl
        exact hother rfl
    · intro hsame
      have hne : s ≠ value := by
        rintro rfl
        have hstring := hsame.mpr rfl
        rw [← hstring] at hjson
        exact Nat.lt_irrefl _ (json.string_shorter _ _ hjson)
      refine .inr ⟨hne, ?_⟩
      intro heq
      exact hne (hsame.mp (some.inj heq).symm)

/-- A string is compared by the operators of equality alone. -/
theorem evaluate_string (hfield : event.data.get field = some (.string s)) (hop : op ∈ operators) :
    (op = "==" ∧ evaluate json (.comparison field op value) event = .ok (decide (.string s = literal json value))) ∨
    (op = "!=" ∧ evaluate json (.comparison field op value) event = .ok (decide (.string s ≠ literal json value))) ∨
    ((op ≠ "==" ∧ op ≠ "!=") ∧
      evaluate json (.comparison field op value) event = invalid "Left value is not a number") := by
  rw [evaluate, evalComparison, hfield]
  simp only [operators, mem_cons, not_mem_nil, or_false] at hop
  rcases hop with rfl | rfl | rfl | rfl | rfl | rfl
  · exact .inl ⟨rfl, rfl⟩
  · exact .inr (.inl ⟨rfl, rfl⟩)
  · exact .inr (.inr ⟨by decide, rfl⟩)
  · exact .inr (.inr ⟨by decide, rfl⟩)
  · exact .inr (.inr ⟨by decide, rfl⟩)
  · exact .inr (.inr ⟨by decide, rfl⟩)

theorem string_answers (hfield : event.data.get field = some (.string s)) (hop : op = "==" ∨ op = "!=") :
    ∃ b, evaluate json (.comparison field op value) event = .ok b := by
  rcases hop with rfl | rfl
  · rw [evaluate, evalComparison, hfield]
    exact ⟨_, rfl⟩
  · rw [evaluate, evalComparison, hfield]
    exact ⟨_, rfl⟩

/-- An answer that is decided is the right one exactly if what decides it is. -/
theorem decided_iff {p q : Prop} [Decidable p] [Decidable q] :
    (∀ b, (.ok (decide p) : Except ObserverError Bool) = .ok b → b = decide q) ↔ (p ↔ q) := by
  constructor
  · intro h
    exact decide_eq_decide.mp (h _ rfl)
  · rintro h b hb
    rw [← Except.ok.inj hb]
    exact decide_eq_decide.mpr h

theorem string_answer_iff (hfield : event.data.get field = some (.string s)) (hop : op ∈ operators) :
    (∀ b, evaluate json (.comparison field op value) event = .ok b → b = stringAnswer op s value) ↔
      (op = "==" ∨ op = "!=" → ReadAsString json s value) := by
  have hcases := @evaluate_string json event field op value s hfield hop
  rcases hcases with ⟨rfl, heq⟩ | ⟨rfl, heq⟩ | ⟨⟨hne, hne'⟩, heq⟩
  · rw [heq, readAsString_iff, forall_prop_of_true (.inl rfl)]
    exact decided_iff
  · rw [heq, readAsString_iff, forall_prop_of_true (.inr rfl)]
    exact decided_iff.trans not_iff_not
  · rw [heq]
    simp [hne, hne']

end Strings

/-! ### Comparisons -/

section Main

variable (json : JsonText) (alphabet : Alphabet) (event : EntityEvent) (field value : String)

/-- Two numbers are compared by one order exactly if it tells them apart. A string is compared by equality alone, and
with the string that the literal quotes exactly if that is no JSON text or is told from the field either way. -/
theorem comparisons_iff :
    (∀ f v, event.data.get field = some (.number f) → json.fromStr value = some (.number v) →
      (∀ op ∈ operators, ∃ b, evaluate json (.comparison field op value) event = .ok b) ∧
      (Ordered json event field value f v ↔ f.ToldApart v)) ∧
    (∀ s op, event.data.get field = some (.string s) → op ∈ operators →
      (op = "==" ∨ op = "!=" → ∃ b, evaluate json (.comparison field op value) event = .ok b) ∧
      ((∀ b, evaluate json (.comparison field op value) event = .ok b → b = stringAnswer op s value) ↔
        (op = "==" ∨ op = "!=" → ReadAsString json s value))) ∧
    (∀ op text, IsIdentifier alphabet field.toList → op ∈ operators → Unquoted value.toList →
      QuotedComparison field op value text → RustText.byteLength text.toList ≤ maxConditionInputBytes →
      parseAndEvaluate json alphabet text event = evaluate json (.comparison field op value) event) := by
  refine ⟨?_, ?_, ?_⟩
  · intro f v hfield hvalue
    exact ⟨fun op hop => ⟨_, evaluate_number hfield hvalue hop⟩, ordered_iff hfield hvalue⟩
  · intro s op hfield hop
    exact ⟨string_answers hfield, string_answer_iff hfield hop⟩
  · intro op text hident hop hvalue htext hlength
    rw [parseAndEvaluate, parse_quoted hident hop hvalue htext hlength]

end Main

/-! ### Literals of digits -/

/-- The digits of a number, without zeros before it. -/
def isDigits (cs : List Char) : Bool :=
  match cs with
  | [] => false
  | c :: rest => (c != '0' || rest.isEmpty) && (c :: rest).all Char.isDigit

def digitsValue (cs : List Char) : Nat := cs.foldl (fun n c => 10 * n + (c.toNat - 48)) 0

def digitsText : JsonText where
  fromStr text :=
    if h : isDigits text.toList = true ∧ digitsValue text.toList < 2 ^ 64 then
      some (.number (.int ⟨digitsValue text.toList, by omega⟩))
    else none
  string_shorter := by
    intro text s h
    split at h
    · cases h
    · cases h

theorem digitsText_fromStr {text : String} {n : Nat} (h : isDigits text.toList = true)
    (hvalue : digitsValue text.toList = n) (hn : n < 2 ^ 64) :
    digitsText.fromStr text = some (.number (.int ⟨n, by omega⟩)) := by
  subst hvalue
  exact dif_pos ⟨h, hn⟩

def orderEvent : EntityEvent where
  data := .object [("code", .string "123"), ("status", .string "shipped"),
    ("total", .number (.int ⟨(9223372036854775808 : Nat), by omega⟩))]
  changes := none

theorem comparisons_shipped :
    Ordered digitsText orderEvent "total" "100" (.int ⟨(9223372036854775808 : Nat), by omega⟩)
      (.int ⟨(100 : Nat), by omega⟩) ∧
    (∀ b, parseAndEvaluate digitsText asciiAlphabet "status == 'shipped'" orderEvent = .ok b →
      b = stringAnswer "==" "shipped" "shipped") := by
  constructor
  · obtain ⟨hnumbers, -⟩ := comparisons_iff digitsText asciiAlphabet orderEvent "total" "100"
    have hliteral : digitsText.fromStr "100" = some (.number (.int ⟨(100 : Nat), by omega⟩)) :=
      digitsText_fromStr (by decide) (by decide) (by decide)
    refine (hnumbers _ _ rfl hliteral).2.mpr (.inr (.inr ?_))
    decide +kernel
  · obtain ⟨-, hstrings, htexts⟩ := comparisons_iff digitsText asciiAlphabet orderEvent "status" "shipped"
    have hspace : Spaces [' '] := by simp [Spaces, RustText.isWhitespace]
    have hname : IsIdentifier asciiAlphabet "status".toList := ⟨⟨_, rfl, by decide⟩, all_eq_true.mp (by decide)⟩
    have hquoted : Unquoted "shipped".toList := by simp [Unquoted, notQuote]
    rw [htexts "==" "status == 'shipped'" hname (by decide) hquoted ⟨[' '], [' '], hspace, hspace, rfl⟩ (by decide)]
    exact (hstrings "shipped" "==" rfl (by decide)).2.mpr fun _ => .inl rfl

/-- Two integers over `i64` that are one double are neither equal nor the one before the other, and a string of digits
is not equal to itself in quotes. -/
theorem comparisons_torn :
    ¬ Ordered digitsText orderEvent "total" "9223372036854775809" (.int ⟨(9223372036854775808 : Nat), by omega⟩)
      (.int ⟨(9223372036854775809 : Nat), by omega⟩) ∧
    parseAndEvaluate digitsText asciiAlphabet "code == '123'" orderEvent = .ok false := by
  constructor
  · have hliteral : digitsText.fromStr "9223372036854775809" =
        some (.number (.int ⟨(9223372036854775809 : Nat), by omega⟩)) :=
      digitsText_fromStr (by decide) (by decide +kernel) (by decide)
    rw [ordered_iff rfl hliteral]
    rintro (⟨h, -⟩ | h | h)
    · cases h
    · revert h
      decide +kernel
    · revert h
      decide +kernel
  · have hparse : parse asciiAlphabet "code == '123'" = .ok (.comparison "code" "==" "123") := rfl
    have hliteral : digitsText.fromStr "123" = some (.number (.int ⟨(123 : Nat), by omega⟩)) :=
      digitsText_fromStr (by decide) (by decide) (by decide)
    rw [parseAndEvaluate, hparse]
    show Except.ok (decide (Value.string "123" = literal digitsText "123")) = _
    rw [literal, hliteral]
    rfl

end FraiseQL.ConditionDsl
