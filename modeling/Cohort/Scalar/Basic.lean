import Cohort.DataType
import Cohort.Binary64
/-
  Scalars: the values of table cells, keys and aggregates.

  Equality of scalars is equality of their CONTENT, a float being its bits: NULL equals NULL, a NaN
  equals itself, and the two zeros differ.  This is the equality by which rows fall into groups, and
  it is decidable equality of the type.  `eq` is the other one, for which floats compare as numbers.
-/

namespace Cohort

/-- A single value. -/
inductive Scalar
  | null
  | boolean (value : Bool)
  | int (value : Int64)
  | float (value : Binary64)
  | text (value : String)
deriving DecidableEq

namespace Scalar

/-- The type of a value. -/
def datatype : Scalar → DataType
  | .null => .null
  | .boolean _ => .boolean
  | .int _ => .int64
  | .float _ => .float64
  | .text _ => .utf8

/-- Whether a value is NULL. -/
def isNull : Scalar → Bool
  | .null => true
  | _ => false

/-- Equality of values, floats compared as numbers: no NaN equals anything, both zeros are one. -/
def eq : Scalar → Scalar → Bool
  | .float a, .float b => a.eq b
  | a, b => a == b

end Scalar
end Cohort
