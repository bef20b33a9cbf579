import Cohort.Aggregate.Basic
/-
  Buckets: cells that hold one tally and can be shared between workers.

  With a bucket of its own, a caller changes the tally at once (`update`, `merge`).  On a SHARED
  bucket a call is a sequence of atomic steps, between which steps of other calls may fall.  A call
  in progress is a `Point`: the step it takes next, with what it has read so far.  The steps are

  * a fetch-and-add on the value or on the count;
  * a load of the value, the count or the flag `isSet`;
  * a compare-and-swap on the value, which fails if the value is no longer the one seen, and may
    also fail for no reason (`spurious`); a failure reports the current value;
  * taking and leaving the lock that guards the first value of an extremum.

  The first value of an extremum is stored BEFORE the flag, under the lock and after the flag has
  been checked once more; afterwards the value only ever improves, so a candidate that does not
  improve on the value it sees is dropped for good.
-/

namespace Cohort

/-- A tally, with the lock that guards the first value of an extremum. -/
structure Bucket where
  tally : Tally := {}
  locked : Bool := false
deriving DecidableEq, Inhabited

namespace Bucket

/-- An unlocked bucket that holds this tally. -/
def ofTally (t : Tally) : Bucket := ⟨t, false⟩

/-- An empty bucket. -/
def empty : Bucket := ofTally .empty

/-! ## With a bucket of one's own -/

/-- Fold one input. -/
def update [FloatAddition] (f : AggregateFunction) (b : Bucket) (input : UInt64) : Bucket :=
  { b with tally := f.update b.tally input }

/-- Fold another tally. -/
def merge [FloatAddition] (f : AggregateFunction) (b : Bucket) (other : Tally) : Bucket :=
  { b with tally := f.merge b.tally other }

/-- Fold a row, if it contributes. -/
def apply [FloatAddition] (b : Bucket) (a : Aggregate) (t : Table) (row : Nat) : Bucket :=
  { b with tally := a.updateTally t row b.tally }

/-! ## On a shared bucket -/

/-- What a caller wants of a shared bucket. -/
inductive Call
  | update (input : UInt64)
  | merge (other : Tally)
  | read
deriving DecidableEq

namespace Call

/-- The word a call brings. -/
def word : Call → UInt64
  | .update input => input
  | .merge other => other.value
  | .read => 0

/-- How many inputs a call stands for. -/
def weight : Call → UInt64
  | .update _ => 1
  | .merge other => other.count
  | .read => 0

end Call

/-- The step a call takes next. -/
inductive Point
  /-- Add the word to the value. -/
  | addValue
  /-- Load the value that the word is to be added to. -/
  | loadSum
  /-- Replace the value, if it is still the one seen, by its sum with the word. -/
  | swapSum (seen : UInt64)
  /-- Load the flag, to see if there is an extremum already. -/
  | checkFlag
  /-- Take the lock; no step as long as another call has it. -/
  | takeLock
  /-- Load the flag again, now that the lock is held. -/
  | recheckFlag
  /-- Store the first value. -/
  | storeValue
  /-- Raise the flag. -/
  | storeFlag
  /-- Leave the lock; `stored` tells whether this call brought the first value. -/
  | leaveLock (stored : Bool)
  /-- Load the extremum that the word is to be compared with. -/
  | loadBest
  /-- Replace the extremum, if it is still the one seen, by the better word. -/
  | swapBest (seen : UInt64)
  /-- Add the weight to the count. -/
  | addCount
  /-- Load the flag for a reader. -/
  | readFlag
  /-- Load the value for a reader that has the flag. -/
  | readValue (isSet : Bool)
  /-- Load the count for a reader that has flag and value. -/
  | readCount (isSet : Bool) (value : UInt64)
  /-- The call has returned, a reader with what it read. -/
  | returned (result : Option Tally)
deriving DecidableEq

/-- Where a call begins. -/
def Call.start (f : AggregateFunction) (c : Call) : Point :=
  match c with
  | .read => .readFlag
  | .update _ => contributing
  | .merge other => if f.ignores other then .returned none else contributing
where
  /-- The first step of a call that contributes. -/
  contributing : Point :=
    match f.kind with
    | .count => .addCount
    | .sum | .avg =>
      match f.numeric with
      | .int64 => .addValue
      | .float64 => .loadSum
    | .min | .max => .checkFlag

/-- Where a call goes on after it has seen the extremum `seen`. -/
def Call.compare (f : AggregateFunction) (c : Call) (seen : UInt64) : Point :=
  if f.improves c.word seen then .swapBest seen else .addCount

/-- One atomic step of a call.  `spurious` makes a compare-and-swap fail for no reason. -/
def step [FloatAddition] (f : AggregateFunction) (c : Call) (spurious : Bool) (p : Point)
    (b : Bucket) : Point × Bucket :=
  let t := b.tally
  match p with
  | .addValue => (.addCount, { b with tally := { t with value := t.value + c.word } })
  | .loadSum => (.swapSum t.value, b)
  | .swapSum seen =>
    if t.value = seen ∧ spurious = false then
      (.addCount, { b with tally := { t with value := f.numeric.add seen c.word } })
    else (.swapSum t.value, b)
  | .checkFlag => (if t.isSet then .loadBest else .takeLock, b)
  | .takeLock => if b.locked then (.takeLock, b) else (.recheckFlag, { b with locked := true })
  | .recheckFlag => (if t.isSet then .leaveLock false else .storeValue, b)
  | .storeValue => (.storeFlag, { b with tally := { t with value := c.word } })
  | .storeFlag => (.leaveLock true, { b with tally := { t with isSet := true } })
  | .leaveLock stored => (if stored then .addCount else .loadBest, { b with locked := false })
  | .loadBest => (c.compare f t.value, b)
  | .swapBest seen =>
    if t.value = seen ∧ spurious = false then
      (.addCount, { b with tally := { t with value := c.word } })
    else (c.compare f t.value, b)
  | .addCount => (.returned none, { b with tally := { t with count := t.count + c.weight } })
  | .readFlag => (.readValue t.isSet, b)
  | .readValue isSet => (.readCount isSet t.value, b)
  | .readCount isSet value => (.returned (some ⟨value, t.count, isSet⟩), b)
  | .returned r => (.returned r, b)

/-- The most steps a call takes when it runs undisturbed: flag, lock, flag, value, flag, lock and
    count for the first value of an extremum. -/
def undisturbedSteps : Nat := 7

/-- A number of steps of one call with no other call in between. -/
def steps [FloatAddition] (f : AggregateFunction) (c : Call) : Nat → Point × Bucket → Point × Bucket
  | 0, s => s
  | n + 1, s => steps f c n (step f c false s.1 s.2)

/-- A call on a shared bucket that no other call disturbs. -/
def perform [FloatAddition] (f : AggregateFunction) (c : Call) (b : Bucket) : Bucket :=
  (steps f c undisturbedSteps (c.start f, b)).2

/-- Fold one input by atomic steps. -/
def updateShared [FloatAddition] (f : AggregateFunction) (b : Bucket) (input : UInt64) : Bucket :=
  perform f (.update input) b

/-- Fold another tally by atomic steps. -/
def mergeShared [FloatAddition] (f : AggregateFunction) (b : Bucket) (other : Tally) : Bucket :=
  perform f (.merge other) b

/-- Fold a row by atomic steps, if it contributes. -/
def applyShared [FloatAddition] (b : Bucket) (a : Aggregate) (t : Table) (row : Nat) : Bucket :=
  match a.input? t row with
  | none => b
  | some word => updateShared a.function b word

end Bucket
end Cohort
