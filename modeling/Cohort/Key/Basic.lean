import Cohort.Scalar.Hash
import Cohort.Expr
/-
  Group keys.

  A key is the tuple of values by which rows fall into one group, together with the hash of those
  values and one row of the group.  Two keys name the SAME group if hash and values agree; the row
  takes no part in that, and the hash alone decides nothing.
-/

namespace Cohort

/-- The identity of a group. -/
structure Key where
  /-- The combined hash of the values. -/
  hash : UInt64
  /-- A row of the group. -/
  row : Nat
  /-- The values of the key expressions on that row, NULL where they miss. -/
  values : List Scalar
deriving DecidableEq, Inhabited

namespace Key

/-- Whether two keys name the same group. -/
def same (a b : Key) : Bool := a.hash == b.hash && a.values == b.values

theorem same_iff {a b : Key} : a.same b = true ↔ a.hash = b.hash ∧ a.values = b.values := by
  simp [same]

/-- The values of key expressions on a row, NULL where an expression misses. -/
def evaluate (exprs : List Expr) (t : Table) (row : Nat) : List Scalar :=
  exprs.map fun e => (e.eval t row).getD .null

/-- The key of a row. -/
def ofRow (exprs : List Expr) (hashValue : Scalar → UInt64) (t : Table) (row : Nat) : Key :=
  let values := evaluate exprs t row
  ⟨Hash.ofValues hashValue values, row, values⟩

end Key
end Cohort
