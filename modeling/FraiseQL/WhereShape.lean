import FraiseQL.WhereClause

/-! Clauses of one shape: the same connectives, operators, numbers of path segments, kinds of values and
lengths of arrays, with any strings for segments, columns and values. -/

namespace FraiseQL

namespace Json

mutual

/-- The value with its strings left out. -/
def shape : Json → Json
  | .str _ => .str ""
  | .arr items => .arr (shapeItems items)
  | .obj entries => .obj (shapeEntries entries)
  | value => value

def shapeItems : List Json → List Json
  | [] => []
  | item :: items => item.shape :: shapeItems items

def shapeEntries : List (String × Json) → List (String × Json)
  | [] => []
  | (_, value) :: entries => ("", value.shape) :: shapeEntries entries

end

mutual

/-- The strings and keys in a value. -/
def strings : Json → List String
  | .str s => [s]
  | .arr items => stringsItems items
  | .obj entries => stringsEntries entries
  | _ => []

def stringsItems : List Json → List String
  | [] => []
  | item :: items => item.strings ++ stringsItems items

def stringsEntries : List (String × Json) → List String
  | [] => []
  | (key, value) :: entries => key :: value.strings ++ stringsEntries entries

end

theorem shapeItems_length (items : List Json) : (shapeItems items).length = items.length := by
  induction items with
  | nil => rfl
  | cons item items ih => exact congrArg (· + 1) ih

theorem asBool?_shape (value : Json) : value.shape.asBool? = value.asBool? := by
  cases value <;> rfl

theorem asArray_length_shape (value : Json) :
    (value.shape.asArray?.getD []).length = (value.asArray?.getD []).length := by
  cases value with
  | arr items => exact shapeItems_length items
  | _ => rfl

end Json

/-- An extended operator with its strings left out. -/
def ExtendedOperator.shape : ExtendedOperator → ExtendedOperator
  | .emailDomainEq _ => .emailDomainEq ""
  | .emailDomainIn domains => .emailDomainIn (domains.map fun _ => "")
  | .emailDomainEndswith _ => .emailDomainEndswith ""
  | .emailLocalPartStartswith _ => .emailLocalPartStartswith ""
  | .vinWmiEq _ => .vinWmiEq ""
  | .ibanCountryEq _ => .ibanCountryEq ""
  | .other display => .other display

def WhereOperator.shape : WhereOperator → WhereOperator
  | .extended op => .extended op.shape
  | op => op

namespace WhereClause

mutual

/-- The same shape; the two paths of a field are treated alike by `indexed`. -/
def SameShape (indexed : List String → Bool) : WhereClause → WhereClause → Prop
  | .field path op value, .field path' op' value' => path.length = path'.length ∧
      indexed path = indexed path' ∧ op.shape = op'.shape ∧ value.shape = value'.shape
  | .and clauses, .and clauses' => SameShapes indexed clauses clauses'
  | .or clauses, .or clauses' => SameShapes indexed clauses clauses'
  | .not clause, .not clause' => SameShape indexed clause clause'
  | .nativeField _ pgCast op value, .nativeField _ pgCast' op' value' => pgCast = pgCast' ∧
      op.shape = op'.shape ∧ value.shape = value'.shape
  | _, _ => False

def SameShapes (indexed : List String → Bool) : List WhereClause → List WhereClause → Prop
  | [], [] => True
  | clause :: clauses, clause' :: clauses' =>
    SameShape indexed clause clause' ∧ SameShapes indexed clauses clauses'
  | _, _ => False

end

mutual

/-- The strings of a clause: path segments, columns and the strings in values. -/
def strings : WhereClause → List String
  | .field path _ value => path ++ value.strings
  | .and clauses => stringsAll clauses
  | .or clauses => stringsAll clauses
  | .not clause => strings clause
  | .nativeField column _ _ value => column :: value.strings

def stringsAll : List WhereClause → List String
  | [] => []
  | clause :: clauses => strings clause ++ stringsAll clauses

end

end WhereClause

end FraiseQL
