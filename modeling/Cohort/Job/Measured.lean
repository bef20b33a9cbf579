import Cohort.Job.Basic
import Cohort.States.Measured
/-
  Jobs whose sizes a caller names.

  The rows of such a job need not be rows of a table, nor its number of aggregates that of a list of
  aggregates, so making it and opening its first group ask for room.
-/

namespace Cohort.Job

variable {σ : Type} [LocalStates σ] [Measured σ]

/-- `create` for rows and a number of aggregates that a caller names. -/
def tryCreate (number : Nat) (rows : Span) (evaluator : KeyEvaluator) (aggregateCount : Nat) :
    Except Error (Job σ) := do
  Block.demand (Measured.createBlocks σ aggregateCount rows.length)
  return create number rows evaluator aggregateCount

/-- `scan` of a job that a caller has sized. -/
def tryScan (aggregates : List Aggregate) (t : Table) (job : Job σ) : Except Error (Job σ) := do
  if job.rows.length ≠ 0 then Block.demand (Measured.pushBlocks job.states)
  job.scan aggregates t

end Cohort.Job
