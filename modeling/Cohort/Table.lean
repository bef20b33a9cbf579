import Cohort.Error
/-
  Tables: rows of scalars, all of one width.

  Every table that exists has rows of its declared width; `ofRows` and `push` refuse others.  A cell
  may hold a value of any type, whatever an expression expects of its column.
-/

namespace Cohort

/-- Rows of scalars of one width. -/
structure Table where
  columns : Nat
  rows : Array (Array Scalar)
  rows_size : ∀ r ∈ rows, r.size = columns

namespace Table

/-- A table without rows. -/
def empty (columns : Nat) : Table := ⟨columns, #[], by simp⟩

/-- The table of these rows, or the FIRST row whose width is wrong. -/
def ofRows (columns : Nat) (rows : Array (Array Scalar)) : Except Error Table :=
  if h : ∀ r ∈ rows, r.size = columns then .ok ⟨columns, rows, h⟩
  else
    let bad := rows.findIdx fun r => r.size != columns
    .error (.rowWidth (some bad) columns (rows.getD bad #[]).size)

/-- Append a row. -/
def push (row : Array Scalar) (t : Table) : Except Error Table :=
  if h : row.size = t.columns then
    .ok ⟨t.columns, t.rows.push row, by
      intro r hr
      rcases Array.mem_push.mp hr with hr | rfl
      · exact t.rows_size r hr
      · exact h⟩
  else .error (.rowWidth none t.columns row.size)

/-- How many rows there are. -/
def rowCount (t : Table) : Nat := t.rows.size

/-- A whole row. -/
def row? (t : Table) (row : Nat) : Option (Array Scalar) := t.rows[row]?

/-- A cell. -/
def value? (t : Table) (row column : Nat) : Option Scalar := do
  let r ← t.rows[row]?
  r[column]?

/-- Whether two rows hold equal values, floats compared as numbers. -/
def rowEq (a b : Array Scalar) : Bool := a.isEqv b Scalar.eq

/-- Whether two tables have the same width and equal rows, floats compared as numbers. -/
def eq (a b : Table) : Bool := a.columns == b.columns && a.rows.isEqv b.rows rowEq

end Table
end Cohort
