import Cohort.Error
/-
  The two numeric domains in which aggregates fold their inputs.

  Every value of a domain is one 64-bit WORD: an integer in two's complement, a float by its bits.
  The zero word is zero in both.  Integers add modulo 2^64.  How floats add is a parameter, the
  class `FloatAddition`: programs use IEEE addition, and a law about sums asks for exactly those
  properties of addition that it needs.

  The order of a domain is that of the integer `rank`, so it is total and tells every two words
  apart: integers by size, floats by the IEEE total order with NaNs at its ends.
-/

namespace Cohort

/-- How two floats are added, on their words. -/
class FloatAddition where
  add : UInt64 → UInt64 → UInt64

/-- IEEE addition, rounded to nearest. -/
instance ieeeAddition : FloatAddition where
  add a b := (Float.ofBits a + Float.ofBits b).toBits

/-- The domain an aggregate works in. -/
inductive Numeric
  | int64
  | float64
deriving DecidableEq

namespace Numeric

/-- The domain of a type, if it is a numeric type. -/
def ofDataType? : DataType → Option Numeric
  | .int64 => some .int64
  | .float64 => some .float64
  | _ => none

/-- The domain of a type. -/
def ofDataType (t : DataType) : Except Error Numeric :=
  match ofDataType? t with
  | some n => .ok n
  | none => .error (.notNumeric t)

/-- The type of a domain's values. -/
def datatype : Numeric → DataType
  | .int64 => .int64
  | .float64 => .float64

/-- The word of a value.  Integers widen to floats where floats are expected; every other mismatch
    gives none. -/
def encode : Numeric → Scalar → Option UInt64
  | .int64, .int v => some v.toUInt64
  | .float64, .float x => some x.bits
  | .float64, .int v => some (Binary64.ofInt v).bits
  | _, _ => none

/-- The value of a word. -/
def decode : Numeric → UInt64 → Scalar
  | .int64, w => .int w.toInt64
  | .float64, w => .float ⟨w⟩

/-- The value of a word as a float. -/
def toBinary64 : Numeric → UInt64 → Binary64
  | .int64, w => .ofInt w.toInt64
  | .float64, w => ⟨w⟩

/-- The sum of two words. -/
def add [FloatAddition] : Numeric → UInt64 → UInt64 → UInt64
  | .int64, a, b => a + b
  | .float64, a, b => FloatAddition.add a b

/-- Place of a word in the order of the domain. -/
def rank : Numeric → UInt64 → Int
  | .int64, w => w.toInt64.toInt
  | .float64, w => Binary64.rank ⟨w⟩

/-- Whether one word comes before another. -/
def less (n : Numeric) (a b : UInt64) : Bool := decide (n.rank a < n.rank b)

/-- The order of a domain tells every two words apart. -/
theorem rank_injective {n : Numeric} {a b : UInt64} (h : n.rank a = n.rank b) : a = b := by
  cases n with
  | int64 =>
    have h' : a.toInt64 = b.toInt64 := Int64.toInt_inj.mp h
    have := congrArg Int64.toUInt64 h'
    simpa using this
  | float64 => exact congrArg Binary64.bits (Binary64.rank_injective h)

end Numeric
end Cohort
