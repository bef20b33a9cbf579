import Cohort.Report
import Cohort.Text.Numeral
import Cohort.Scalar.Text
import Cohort.Aggregate.Kind
/-
  What can go wrong.

  An ERROR is a cause with the values that explain it.  How it is worded is decided in one place,
  `Error.report`.
-/

namespace Cohort

/-- Causes of failure. -/
inductive Error
  /-- A value that should have been an integer. -/
  | notAnInt (value : Scalar)
  /-- A name that no grouping strategy has. -/
  | unknownStrategy (name : String)
  /-- A name that no storage mode has. -/
  | unknownStorage (name : String)
  /-- A name that no aggregate has. -/
  | unknownAggregate (name : String)
  /-- A name that no setting has. -/
  | unknownSetting (name : String)
  /-- A thread count that is no numeral. -/
  | unreadableThreads (text : String) (fault : Text.NumeralFault)
  /-- A thread count below the least that can be set. -/
  | tooFewThreads (least : Nat)
  /-- A thread count above the greatest that can be set. -/
  | tooManyThreads (greatest : Nat)
  /-- No threads at all. -/
  | noThreads
  /-- A row of the wrong width, with its number where rows come in a batch. -/
  | rowWidth (row : Option Nat) (expected got : Nat)
  /-- A type without a numeric domain. -/
  | notNumeric (type : DataType)
  /-- An aggregate that needs an input and has none. -/
  | inputRequired (kind : AggregateKind)
  /-- An aggregate over a type without a numeric domain. -/
  | inputNotNumeric (kind : AggregateKind) (type : DataType)
  /-- Neither a key nor an aggregate. -/
  | nothingToGroup
  /-- Fewer rows than threads. -/
  | idleThreads (rows threads : Nat)
  /-- Two jobs whose numbers of aggregates differ. -/
  | aggregatesDiffer (left right : Nat)
  /-- A merge of no jobs. -/
  | noJobs
  /-- A place past the end of what it is looked up in, or a count past the greatest word. -/
  | outOfRange (index size : Nat)
  /-- More places of some width in bytes than memory has addresses for. -/
  | noRoom (places width : Nat)
deriving DecidableEq

namespace Error

/-- The report of a cause. -/
def report : Error → Report
  | .notAnInt v => (Report.ofMessage "Not an i64").withField "value" v.display
  | .unknownStrategy n => .ofMessage ("Unknown grouping strategy '" ++ n ++ "'")
  | .unknownStorage n => .ofMessage ("Unknown storage mode '" ++ n ++ "'")
  | .unknownAggregate n => .ofMessage ("Unknown aggregate function '" ++ n ++ "'")
  | .unknownSetting n => .ofMessage ("Missing setting for '" ++ n ++ "'")
  | .unreadableThreads t f =>
    ((Report.ofMessage f.message).context "Failed to parse thread count").withField "value" t
  | .tooFewThreads n => .ofMessage ("Thread count cannot be less than " ++ toString n)
  | .tooManyThreads n => .ofMessage ("Thread count cannot be greater than " ++ toString n)
  | .noThreads => .ofMessage "Thread count must be greater than zero"
  | .rowWidth row expected got =>
    let start := Report.ofMessage "Row has an unexpected number of columns"
    let numbered := match row with
      | none => start
      | some n => start.withField "row" (toString n)
    (numbered.withField "expected" (toString expected)).withField "got" (toString got)
  | .notNumeric t => (Report.ofMessage "Expected a numeric type").withField "datatype" t.name
  | .inputRequired k =>
    (Report.ofMessage "Aggregate requires an input expression").withField "function" k.name
  | .inputNotNumeric k t =>
    ((Report.ofMessage "Aggregate requires a numeric input").withField "function" k.name).withField
      "datatype" t.name
  | .nothingToGroup =>
    .ofMessage "Grouping requires at least one grouping expression or aggregate"
  | .idleThreads rows threads =>
    ((Report.ofMessage "Thread count leaves some threads with no rows to group").withField
      "rows" (toString rows)).withField "threads" (toString threads)
  | .aggregatesDiffer left right =>
    ((Report.ofMessage "Cannot merge jobs with different aggregates").withField
      "left" (toString left)).withField "right" (toString right)
  | .noJobs => .ofMessage "at least one job to merge"
  | .outOfRange index size =>
    ((Report.ofMessage "Index out of range").withField "index" (toString index)).withField
      "size" (toString size)
  | .noRoom places width =>
    ((Report.ofMessage "No room in memory").withField "places" (toString places)).withField
      "width" (toString width)

/-- The wording of a cause on one line. -/
def message (e : Error) : String := e.report.display

end Error

/-- Parse the name of an aggregate. -/
def AggregateKind.parse (text : String) : Except Error AggregateKind :=
  match AggregateKind.ofName? text with
  | some k => .ok k
  | none => .error (.unknownAggregate text)

/-- The integer in a value. -/
def Scalar.asInt : Scalar → Except Error Int64
  | .int v => .ok v
  | v => .error (.notAnInt v)

end Cohort
