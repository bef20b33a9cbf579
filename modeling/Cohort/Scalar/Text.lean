import Cohort.Scalar.Basic
import Cohort.Decimal.Float
import Cohort.Text.Quoted
/-
  Two written forms of a scalar.

  `display` is for readers: NULL, true, 42, 2.5, abc.  `inspect` tells the type as well and quotes
  texts: Null, Boolean(true), Int64(42), Float64(2.5), Utf8("abc").
-/

namespace Cohort.Scalar

/-- A value for readers. -/
def display : Scalar → String
  | .null => "NULL"
  | .boolean b => if b then "true" else "false"
  | .int v => toString v.toInt
  | .float x => x.write Binary64.plain
  | .text s => s

/-- A value with its type. -/
def inspect : Scalar → String
  | .null => "Null"
  | .boolean b => "Boolean(" ++ (if b then "true" else "false") ++ ")"
  | .int v => "Int64(" ++ toString v.toInt ++ ")"
  | .float x => "Float64(" ++ x.write Binary64.exact ++ ")"
  | .text s => "Utf8(" ++ Text.quote s ++ ")"

end Cohort.Scalar
