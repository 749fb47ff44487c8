import Mathlib.Algebra.Group.Int.Defs
import Mathlib.Algebra.GroupWithZero.Nat
import Mathlib.Data.List.Basic

/-! JSON values as `serde_json` holds them, and the compact text `serde_json::to_string` writes. An object
is the list of its entries in map order; a number is an integer in the 64-bit ranges or a finite float,
kept as the text it is printed with. -/

namespace FraiseQL

/-- The characters of a printed number. -/
def isNumberChar (c : Char) : Bool := c.isDigit || c = '-' || c = '.' || c = 'e'

/-- No two signs in a row. -/
def noDoubleDash : List Char → Bool
  | a :: b :: cs => !(a == '-' && b == '-') && noDoubleDash (b :: cs)
  | _ => true

/-- A finite float, given by the text it prints as. -/
structure FloatText where
  text : String
  valid : text.toList ≠ [] ∧ (∀ c ∈ text.toList, isNumberChar c = true) ∧ noDoubleDash text.toList = true
  deriving DecidableEq

/-- An integer of `serde_json::Number`: a `u64`, or a negative `i64`. -/
structure JsonInt where
  value : Int
  range : -2 ^ 63 ≤ value ∧ value < 2 ^ 64
  deriving DecidableEq

/-- `serde_json::Number`. -/
inductive JsonNumber where
  | int (n : JsonInt)
  | float (t : FloatText)
  deriving DecidableEq

/-- `serde_json::Value`. -/
inductive Json where
  | null
  | bool (b : Bool)
  | num (n : JsonNumber)
  | str (s : String)
  | arr (items : List Json)
  | obj (entries : List (String × Json))

namespace Json

/-- A natural number as a JSON integer, reduced to the `u64` range. -/
def ofNat (n : Nat) : Json :=
  .num (.int ⟨((n % 2 ^ 64 : Nat) : Int), by omega⟩)

def asStr? : Json → Option String
  | .str s => some s
  | _ => none

def asObject? : Json → Option (List (String × Json))
  | .obj entries => some entries
  | _ => none

def asArray? : Json → Option (List Json)
  | .arr items => some items
  | _ => none

def asBool? : Json → Option Bool
  | .bool b => some b
  | _ => none

def asU64? : Json → Option Nat
  | .num (.int n) => if 0 ≤ n.value then some n.value.toNat else none
  | _ => none

def asI64? : Json → Option Int
  | .num (.int n) => if n.value < 2 ^ 63 then some n.value else none
  | _ => none

/-- `Map::get`. -/
def lookup (key : String) (entries : List (String × Json)) : Option Json :=
  (entries.find? fun e => e.1 = key).map (·.2)

/-- `Value::get` with a string key. -/
def get? (key : String) : Json → Option Json
  | .obj entries => lookup key entries
  | _ => none

/-! ### Text -/

def hexDigit (n : Nat) : Char := Nat.digitChar n

/-- One character of a JSON string literal. -/
def escapeChar (c : Char) : List Char :=
  if c = '"' then ['\\', '"']
  else if c = '\\' then ['\\', '\\']
  else if c = '\x08' then ['\\', 'b']
  else if c = '\x0c' then ['\\', 'f']
  else if c = '\n' then ['\\', 'n']
  else if c = '\r' then ['\\', 'r']
  else if c = '\t' then ['\\', 't']
  else if c.toNat < 32 then ['\\', 'u', '0', '0', hexDigit (c.toNat / 16), hexDigit (c.toNat % 16)]
  else [c]

/-- A JSON string literal. -/
def quote (s : String) : String := "\"" ++ String.ofList (s.toList.flatMap escapeChar) ++ "\""

/-- `Number::to_string`. -/
def numberText : JsonNumber → String
  | .int n => toString n.value
  | .float t => t.text

mutual

/-- `serde_json::to_string`. -/
def text : Json → String
  | .null => "null"
  | .bool b => if b then "true" else "false"
  | .num n => numberText n
  | .str s => quote s
  | .arr items => "[" ++ String.intercalate "," (itemTexts items) ++ "]"
  | .obj entries => "\x7b" ++ String.intercalate "," (entryTexts entries) ++ "\x7d"

def itemTexts : List Json → List String
  | [] => []
  | j :: js => text j :: itemTexts js

def entryTexts : List (String × Json) → List String
  | [] => []
  | (k, v) :: es => (quote k ++ ":" ++ text v) :: entryTexts es

end

theorem natText_toList (n : Nat) : (toString (Int.ofNat n)).toList = Nat.toDigits 10 n := by
  rw [Int.toString_eq_repr]
  exact Nat.toList_repr

theorem negText_toList (n : Nat) : (toString (Int.negSucc n)).toList = '-' :: Nat.toDigits 10 (n + 1) := by
  rw [Int.toString_eq_repr]
  show ("-" ++ (n + 1).repr).toList = _
  rw [String.toList_append, Nat.toList_repr]
  rfl

/-! ### Equality -/

mutual

/-- Equality test. -/
def beq : Json → Json → Bool
  | .null, .null => true
  | .bool a, .bool b => a == b
  | .num a, .num b => a == b
  | .str a, .str b => a == b
  | .arr xs, .arr ys => beqItems xs ys
  | .obj xs, .obj ys => beqEntries xs ys
  | _, _ => false

def beqItems : List Json → List Json → Bool
  | [], [] => true
  | x :: xs, y :: ys => beq x y && beqItems xs ys
  | _, _ => false

def beqEntries : List (String × Json) → List (String × Json) → Bool
  | [], [] => true
  | (k, x) :: xs, (l, y) :: ys => k == l && beq x y && beqEntries xs ys
  | _, _ => false

end

mutual

theorem beq_iff : ∀ a b : Json, beq a b = true ↔ a = b
  | .null, b => by cases b <;> simp [beq]
  | .bool _, b => by cases b <;> simp [beq]
  | .num _, b => by cases b <;> simp [beq]
  | .str _, b => by cases b <;> simp [beq]
  | .arr xs, b => by
    cases b with
    | arr ys => simp [beq, beqItems_iff xs ys]
    | _ => simp [beq]
  | .obj xs, b => by
    cases b with
    | obj ys => simp [beq, beqEntries_iff xs ys]
    | _ => simp [beq]

theorem beqItems_iff : ∀ xs ys : List Json, beqItems xs ys = true ↔ xs = ys
  | [], ys => by cases ys <;> simp [beqItems]
  | x :: xs, ys => by
    cases ys with
    | nil => simp [beqItems]
    | cons y ys => simp [beqItems, beq_iff x y, beqItems_iff xs ys]

theorem beqEntries_iff : ∀ xs ys : List (String × Json), beqEntries xs ys = true ↔ xs = ys
  | [], ys => by cases ys <;> simp [beqEntries]
  | (k, x) :: xs, ys => by
    cases ys with
    | nil => simp [beqEntries]
    | cons e ys =>
      obtain ⟨l, y⟩ := e
      simp [beqEntries, beq_iff x y, beqEntries_iff xs ys]

end

instance : DecidableEq Json := fun a b => decidable_of_iff (beq a b = true) (beq_iff a b)

end Json

end FraiseQL
