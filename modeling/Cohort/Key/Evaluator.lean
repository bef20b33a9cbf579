import Cohort.Key.Basic
/-
  Evaluators: the key expressions with the values of the last row.

  An evaluator REMEMBERS the row it was asked for last, with the values and the hash found there.
  Asked for the same row number again it does not look at the table, so it must not be used on two
  tables in turn: it would answer for the table it saw first.  Whoever is handed
  an evaluator starts with what it remembers by then, and goes on alone.
-/

namespace Cohort

/-- Key expressions with a memory of one row. -/
structure KeyEvaluator where
  exprs : List Expr
  /-- The hash of one key value. -/
  hashValue : Scalar → UInt64
  /-- The row remembered, none before the first. -/
  row : Option Nat
  /-- The values on that row, NULLs before the first. -/
  values : List Scalar
  /-- The combined hash of the values, zero before the first row. -/
  hash : UInt64

namespace KeyEvaluator

/-- An evaluator that remembers nothing yet. -/
def create (exprs : List Expr) (hashValue : Scalar → UInt64) : KeyEvaluator :=
  ⟨exprs, hashValue, none, exprs.map fun _ => .null, 0⟩

/-- The evaluator after it was asked for a row. -/
def visit (ev : KeyEvaluator) (t : Table) (row : Nat) : KeyEvaluator :=
  if ev.row = some row then ev
  else
    let values := Key.evaluate ev.exprs t row
    { ev with row := some row, values := values, hash := Hash.ofValues ev.hashValue values }

/-- What an evaluator remembers, as the key of a row. -/
def keyAt (ev : KeyEvaluator) (row : Nat) : Key := ⟨ev.hash, row, ev.values⟩

/-- The key of a row, and the evaluator after it was asked. -/
def key (ev : KeyEvaluator) (t : Table) (row : Nat) : Key × KeyEvaluator :=
  let ev := ev.visit t row
  (ev.keyAt row, ev)

/-- Whether what is remembered belongs to the group of a key. -/
def isMatch (ev : KeyEvaluator) (k : Key) : Bool := k.hash == ev.hash && k.values == ev.values

/-- The remembered row and its key find the same groups. -/
theorem isMatch_eq_same (ev : KeyEvaluator) (k : Key) (row : Nat) :
    ev.isMatch k = k.same (ev.keyAt row) := rfl

/-- Asking twice for a row changes nothing. -/
theorem visit_visit (ev : KeyEvaluator) (t u : Table) (row : Nat) :
    (ev.visit t row).visit u row = ev.visit t row := by
  have h : (ev.visit t row).row = some row := by
    unfold visit; split <;> simp_all
  rw [visit, if_pos h]

end KeyEvaluator
end Cohort
