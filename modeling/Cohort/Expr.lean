import Cohort.Table
/-
  Expressions over the rows of a table.

  Evaluating an expression at a row either gives a value or MISSES; missing is an ordinary outcome,
  not an error.  NULL is a miss: no expression ever evaluates to NULL.
-/

namespace Cohort

/-- An expression evaluated row by row. -/
inductive Expr
  /-- A column, of the type it is declared to have, with a name of its own or its number. -/
  | column (index : Nat) (type : DataType) (name : Option String)
  /-- A constant. -/
  | literal (value : Scalar)
  /-- An expression of a declared type whose evaluation always misses. -/
  | missing (type : DataType)
deriving DecidableEq

namespace Expr

/-- The type an expression has where it does not miss. -/
def datatype : Expr → DataType
  | .column _ t _ => t
  | .literal v => v.datatype
  | .missing t => t

/-- The name an expression goes by in results. -/
def name : Expr → String
  | .column i _ none => "#" ++ toString i
  | .column _ _ (some n) => n
  | .literal v => v.display
  | .missing t => "MissExpr \x7b datatype: " ++ t.name ++ " \x7d"

/-- A value, unless it is NULL. -/
def present : Scalar → Option Scalar
  | .null => none
  | v => some v

/-- The value at a row, or a miss. -/
def eval (e : Expr) (t : Table) (row : Nat) : Option Scalar :=
  match e with
  | .column i _ _ => (t.value? row i).bind present
  | .literal v => present v
  | .missing _ => none

/-- No expression evaluates to NULL. -/
theorem eval_ne_null (e : Expr) (t : Table) (row : Nat) : e.eval t row ≠ some .null := by
  have h : ∀ v, present v ≠ some .null := by intro v; cases v <;> simp [present]
  cases e with
  | column i _ _ =>
    simp only [eval]
    cases t.value? row i with
    | none => simp
    | some v => exact h v
  | literal v => exact h v
  | missing _ => simp [eval]

end Expr
end Cohort
