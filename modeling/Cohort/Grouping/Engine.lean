import Cohort.Grouping.Results
import Cohort.Job.MergeTree
import Cohort.Shared.Flusher
import Cohort.Shared.Scanner
import Cohort.States.Arrays
import Cohort.States.Buckets
import Cohort.States.Lists
/-
  The grouping engine.

  An engine knows how to group (`Config`) and what to compute (`GroupingSpec`).  `group` cuts the
  table into one span per worker and lets the strategy do the rest:

  * `localMerge`        groups every span in a job and merges the jobs up a tree;
  * `localGlobalMerge`  groups every span in a job and pours the jobs into shared groups, unless
                        there is one job only, which then is the result;
  * `globalMerge`       groups all spans straight into shared groups.

  Where workers meet at shared groups, the order of their steps is the `schedule`, of which the
  results must not depend on more than the order of groups and the rows that stand for them.
-/

namespace Cohort

/-- What to group by and what to compute. -/
structure GroupingSpec where
  keys : List Expr
  aggregates : List Aggregate
  /-- The hash of one key value. -/
  hashValue : Scalar → UInt64 := Hash.ofScalar

/-- A configuration with something to compute. -/
structure Engine where
  config : Config
  spec : GroupingSpec
  threads_ne_zero : config.threads ≠ 0
  nonempty : spec.keys ≠ [] ∨ spec.aggregates ≠ []

namespace Engine

/-- The engine of a configuration and a specification.  The configuration is checked first. -/
def create (config : Config) (spec : GroupingSpec) : Except Error Engine :=
  if ht : config.threads = 0 then .error .noThreads
  else if hs : spec.keys = [] ∧ spec.aggregates = [] then .error .nothingToGroup
  else .ok ⟨config, spec, ht, Decidable.not_and_iff_not_or_not.mp hs⟩

/-- The names of the key expressions. -/
def groupNames (e : Engine) : List String := e.spec.keys.map (·.name)

/-- An evaluator of the key expressions that remembers nothing yet. -/
def evaluator (e : Engine) : KeyEvaluator := .create e.spec.keys e.spec.hashValue

/-- One job per span, numbered in order. -/
def jobs (e : Engine) (σ : Type) [LocalStates σ] (spans : List Span) : List (Job σ) :=
  spans.zipIdx.map fun p => .create p.2 p.1 e.evaluator e.spec.aggregates.length

variable [FloatAddition]

/-- Group spans in private jobs of a layout and merge them up a tree. -/
def groupLocally (e : Engine) (σ : Type) [LocalStates σ] (t : Table) (spans : List Span) :
    Except Error Results := do
  let job ← Job.mergeTree e.spec.aggregates t (e.jobs σ spans)
  return .ofJob t e.spec.aggregates e.groupNames job

/-- Group spans in private jobs of a layout and pour them into shared groups. -/
def groupAndFlush (e : Engine) (σ : Type) [LocalStates σ] (t : Table) (spans : List Span)
    (schedule : List Nat) : Except Error Results := do
  let jobs ← (e.jobs σ spans).mapM (Job.scan e.spec.aggregates t)
  match jobs with
  | [job] => return .ofJob t e.spec.aggregates e.groupNames job
  | jobs =>
    let crew ← Flusher.flushAll e.spec.aggregates schedule jobs .empty
    return .ofShared t e.spec.aggregates e.groupNames crew.shared

/-- Group spans straight into shared groups. -/
def groupGlobally (e : Engine) (t : Table) (spans : List Span) (schedule : List Nat) :
    Except Error Results := do
  let crew ← Scanner.scanAll e.spec.aggregates t e.evaluator schedule spans .empty
  return .ofShared t e.spec.aggregates e.groupNames crew.shared

/-- Group spans by the strategy of the engine, private states having a given layout. -/
def groupSpans (e : Engine) (σ : Type) [LocalStates σ] (t : Table) (spans : List Span)
    (schedule : List Nat) : Except Error Results :=
  match e.config.strategy with
  | .localMerge => e.groupLocally σ t spans
  | .localGlobalMerge => e.groupAndFlush σ t spans schedule
  | .globalMerge => e.groupGlobally t spans schedule

/-- Group the rows of a table. -/
def group (e : Engine) (t : Table) (schedule : List Nat := []) : Except Error Results :=
  if t.rowCount = 0 then .ok (.empty t e.spec.aggregates e.groupNames)
  else do
    let spans ← partition t.rowCount e.config.threads
    match e.config.storage with
    | .bucket => e.groupSpans BucketStates t spans schedule
    | .list => e.groupSpans ListStates t spans schedule
    | .array => e.groupSpans ArrayStates t spans schedule

end Engine
end Cohort
