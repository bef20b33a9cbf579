import Cohort.Scalar.Basic
/-
  The order of scalars.

  Values of one type compare as values: false before true, integers by size, floats by the IEEE
  total order, texts by code point.  Values of different types compare by their type, NULL lowest.
  Lists of values, such as group keys, compare at the first place where they differ, and a list that
  runs out first is the smaller one.  `sort` puts values in ascending order and keeps equal ones in
  the order in which they came.
-/

namespace Cohort.Scalar

/-- Compare two values. -/
def compare : Scalar → Scalar → Ordering
  | .boolean a, .boolean b => Ord.compare a.toNat b.toNat
  | .int a, .int b => Ord.compare a.toInt b.toInt
  | .float a, .float b => Ord.compare a.rank b.rank
  | .text a, .text b => Ord.compare a b
  | a, b => Ord.compare a.datatype.rank b.datatype.rank

/-- Compare two lists of values, place by place and then by length. -/
def compareLists : List Scalar → List Scalar → Ordering
  | a :: as, b :: bs => (compare a b).then (compareLists as bs)
  | as, bs => Ord.compare as.length bs.length

/-- Values in ascending order, stable. -/
def sort (values : List Scalar) : List Scalar :=
  values.mergeSort fun a b => compare a b != .gt

example : compare .null (.int (-5)) = .lt := by decide
example : compare (.int (-5)) (.int 3) = .lt := by decide
example : compareLists [.int 1] [.int 1, .null] = .lt := by decide

end Cohort.Scalar
