import Cohort.Job.Basic
/-
  Merging many jobs into one.

  Up to three jobs are scanned and merged from left to right; more are halved, each half is merged
  by itself, and the right half goes into the left one.  The jobs stay in order throughout, so with
  consecutive spans the groups come out in the order of one scan over all rows.
-/

namespace Cohort.Job

variable {σ : Type} [LocalStates σ]

/-- The most jobs that are merged without halving. -/
def leafJobs : Nat := 3

/-- Scan jobs and merge them from left to right. -/
def mergeLeaf (aggregates : List Aggregate) (t : Table) (jobs : List (Job σ)) :
    Except Error (Job σ) := do
  match ← jobs.mapM (scan aggregates t) with
  | [] => .error .noJobs
  | first :: others => others.foldlM (mergeFrom aggregates) first

/-- Scan jobs and merge them up a binary tree. -/
def mergeTree (aggregates : List Aggregate) (t : Table) (jobs : List (Job σ)) :
    Except Error (Job σ) :=
  if jobs.length ≤ leafJobs then mergeLeaf aggregates t jobs
  else do
    let half := jobs.length / 2
    let left ← mergeTree aggregates t (jobs.take half)
    let right ← mergeTree aggregates t (jobs.drop half)
    left.mergeFrom aggregates right
termination_by jobs.length
decreasing_by
  all_goals
    simp only [leafJobs, List.length_take, List.length_drop] at *
    omega

end Cohort.Job
