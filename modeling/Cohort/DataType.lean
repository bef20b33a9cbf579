/-
  The logical types of scalars and expressions.
-/

namespace Cohort

/-- Logical type of a scalar value or of an expression. -/
inductive DataType
  | null
  | boolean
  | int64
  | float64
  | utf8
deriving DecidableEq

namespace DataType

/-- The name a type is written by. -/
def name : DataType → String
  | .null => "Null"
  | .boolean => "Boolean"
  | .int64 => "Int64"
  | .float64 => "Float64"
  | .utf8 => "Utf8"

/-- Place of a type in the order of types, `null` lowest. -/
def rank : DataType → Nat
  | .null => 0
  | .boolean => 1
  | .int64 => 2
  | .float64 => 3
  | .utf8 => 4

theorem rank_injective {a b : DataType} (h : a.rank = b.rank) : a = b := by
  cases a <;> cases b <;> first | rfl | cases h

end DataType
end Cohort
