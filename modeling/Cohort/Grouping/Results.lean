import Cohort.Job.Basic
import Cohort.Scalar.Order
import Cohort.Shared.Groups
/-
  Results: the groups that a run has found.

  A group is its key and, by its ordinal, one tally per aggregate; tallies become values only when
  they are read.  How a tally is read is part of the results, since private states and shared groups
  store them differently.  The order of groups is that of discovery, except for `sortedRows`, which
  orders them by their key values.
-/

namespace Cohort

/-- The groups of a table. -/
structure Results where
  table : Table
  aggregates : List Aggregate
  /-- The names of the key expressions. -/
  groupNames : List String
  keys : Array Key
  /-- The tally of an aggregate in a group, both by number. -/
  load : (aggregate ordinal : Nat) → Except Error Tally

/-- One group of some results. -/
structure Group where
  results : Results
  ordinal : Nat
  key : Key

namespace Group

/-- The row that stands for the group. -/
def rowIndex (g : Group) : Nat := g.key.row

/-- The values that the rows of the group share. -/
def keyValues (g : Group) : List Scalar := g.key.values

/-- A cell of the row that stands for the group. -/
def rowValue (g : Group) (column : Nat) : Option Scalar := g.results.table.value? g.key.row column

/-- The value of an aggregate whose number is known. -/
def finalized (g : Group) (a : Aggregate) (number : Nat) : Except Error Scalar :=
  (g.results.load number g.ordinal).map a.function.finalize

/-- The value of an aggregate by number, none if there is no such aggregate. -/
def aggregate (g : Group) (number : Nat) : Except Error (Option Scalar) :=
  match g.results.aggregates[number]? with
  | none => .ok none
  | some a => (g.finalized a number).map some

/-- The values of all aggregates. -/
def aggregates (g : Group) : Except Error (List Scalar) :=
  g.results.aggregates.zipIdx.mapM fun p => g.finalized p.1 p.2

end Group

namespace Results

/-- The results of a table without rows. -/
def empty (t : Table) (aggregates : List Aggregate) (groupNames : List String) : Results :=
  ⟨t, aggregates, groupNames, #[], fun _ ordinal => .error (.outOfRange ordinal 0)⟩

/-- The groups of one job. -/
def ofJob {σ : Type} [LocalStates σ] (t : Table) (aggregates : List Aggregate)
    (groupNames : List String) (job : Job σ) : Results :=
  ⟨t, aggregates, groupNames, job.dictionary.keys, LocalStates.load job.states⟩

/-- The groups that workers share. -/
def ofShared (t : Table) (aggregates : List Aggregate) (groupNames : List String)
    (g : SharedGroups) : Results :=
  ⟨t, aggregates, groupNames, g.dictionary.keys, SharedGroups.load g⟩

/-- How many groups there are. -/
def size (r : Results) : Nat := r.keys.size

/-- The names of the aggregates. -/
def aggregateNames (r : Results) : List String := r.aggregates.map (·.name)

/-- A group by number. -/
def group? (r : Results) (ordinal : Nat) : Option Group := (r.keys[ordinal]?).map (⟨r, ordinal, ·⟩)

/-- All groups. -/
def groups (r : Results) : List Group := r.keys.toList.zipIdx.map fun p => ⟨r, p.2, p.1⟩

/-- Rows of key values and aggregate values in the order of their keys. -/
def sortRows (rows : List (List Scalar × List Scalar)) : List (List Scalar × List Scalar) :=
  rows.mergeSort fun a b => Scalar.compareLists a.1 b.1 != .gt

/-- Key values and aggregate values of all groups, in the order of the key values. -/
def sortedRows (r : Results) : Except Error (List (List Scalar × List Scalar)) := do
  let rows ← r.groups.mapM fun g => do
    let values ← g.aggregates
    return (g.keyValues, values)
  return sortRows rows

end Results
end Cohort
