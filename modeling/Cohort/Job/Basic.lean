import Cohort.Dictionary.Local
import Cohort.Partition
import Cohort.States.Basic
/-
  Jobs: one worker's rows, grouped privately.

  A job owns all it changes: a key evaluator, a dictionary and the states of its groups.  The
  dictionary numbers the groups and the states follow it, so an ordinal means the same group in
  both.  `scan` groups the rows of the job's span.  `mergeFrom` takes over the groups of another
  job: a key that is there already is folded, any other moves to the end, in the order it had.
-/

namespace Cohort

/-- A worker's private grouping. -/
structure Job (σ : Type) where
  number : Nat
  /-- The rows of this job and of all jobs merged into it. -/
  rows : Span
  aggregateCount : Nat
  evaluator : KeyEvaluator
  dictionary : Dictionary
  states : σ

namespace Job

variable {σ : Type} [LocalStates σ]

/-- A job that has not begun.  It expects no more groups than it has rows. -/
def create (number : Nat) (rows : Span) (evaluator : KeyEvaluator) (aggregateCount : Nat) : Job σ :=
  ⟨number, rows, aggregateCount, evaluator, .empty, LocalStates.create aggregateCount rows.length⟩

/-- How many groups were found. -/
def size (job : Job σ) : Nat := job.dictionary.size

/-! ## Scanning -/

/-- Put one row into its group. -/
def scanRow (aggregates : List Aggregate) (t : Table) (job : Job σ) (row : Nat) :
    Except Error (Job σ) := do
  let ((ordinal, isNew), dictionary, evaluator) := job.dictionary.findOrInsert job.evaluator t row
  let states := if isNew then LocalStates.push job.states else job.states
  let states ← LocalStates.update aggregates t row ordinal states
  return { job with dictionary := dictionary, evaluator := evaluator, states := states }

/-- Group the rows of the job. -/
def scan (aggregates : List Aggregate) (t : Table) (job : Job σ) : Except Error (Job σ) :=
  job.rows.rows.foldlM (scanRow aggregates t) job

/-! ## Merging -/

/-- Take over one group of `source`, whose key and ordinal there are `entry`. -/
def mergeGroup (aggregates : List Aggregate) (s : Job σ × σ) (entry : Key × Nat) :
    Except Error (Job σ × σ) := do
  let (job, source) := s
  match job.dictionary.find entry.1 with
  | some ordinal =>
    let states ← LocalStates.merge aggregates ordinal source entry.2 job.states
    return ({ job with states := states }, source)
  | none =>
    let (_, states, source) ← LocalStates.append aggregates source entry.2 job.states
    return ({ job with dictionary := job.dictionary.insert entry.1, states := states }, source)

/-- Take over all groups of another job. -/
def mergeFrom (aggregates : List Aggregate) (job other : Job σ) : Except Error (Job σ) :=
  if job.aggregateCount ≠ other.aggregateCount then
    .error (.aggregatesDiffer job.aggregateCount other.aggregateCount)
  else do
    let roomy := { job with states := LocalStates.reserve other.size job.states }
    let (merged, _) ← other.dictionary.keys.toList.zipIdx.foldlM (mergeGroup aggregates)
      (roomy, other.states)
    return { merged with rows := job.rows.hull other.rows }

end Job
end Cohort
