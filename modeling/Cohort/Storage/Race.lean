import Cohort.Storage.Bucket
/-
  Races: several calls on one shared bucket, their steps interleaved.

  A RACE is a bucket with the calls on it, each at some point.  A schedule names, turn by turn, the
  call that takes its next step, and whether that step fails spuriously if it is a
  compare-and-swap.  Every interleaving of the calls is the run of some schedule.
-/

namespace Cohort

/-- A shared bucket and the calls on it, with the step each takes next. -/
structure Race where
  bucket : Bucket
  calls : List (Bucket.Call × Bucket.Point)
deriving DecidableEq

namespace Race

/-- The calls, none of which has taken a step. -/
def start (f : AggregateFunction) (b : Bucket) (calls : List Bucket.Call) : Race :=
  ⟨b, calls.map fun c => (c, c.start f)⟩

/-- The turn of call number `turn.1`. -/
def step [FloatAddition] (f : AggregateFunction) (r : Race) (turn : Nat × Bool) : Race :=
  match r.calls[turn.1]? with
  | none => r
  | some (c, p) =>
    let next := Bucket.step f c turn.2 p r.bucket
    ⟨next.2, r.calls.set turn.1 (c, next.1)⟩

/-- The turns of a schedule, one after the other. -/
def run [FloatAddition] (f : AggregateFunction) (schedule : List (Nat × Bool)) (r : Race) : Race :=
  schedule.foldl (step f) r

/-- Whether a call has returned. -/
def hasReturned : Bucket.Point → Bool
  | .returned _ => true
  | _ => false

/-- Whether all calls have returned. -/
def isOver (r : Race) : Bool := r.calls.all fun c => hasReturned c.2

/-- One turn for every call, in order. -/
def round (r : Race) : List (Nat × Bool) := (List.range r.calls.length).map fun i => (i, false)

/-- Rounds until all calls have returned, `limit` rounds at most. -/
def finish [FloatAddition] (f : AggregateFunction) : (limit : Nat) → Race → Race
  | 0, r => r
  | n + 1, r => if r.isOver then r else finish f n (r.run f r.round)

/-- Rounds after which calls that take turns have all returned: each loses a compare-and-swap at
    most once to every other call, and waits for the lock at most three turns of every other. -/
def enoughRounds (calls : Nat) : Nat := 4 * calls + Bucket.undisturbedSteps

/-- Inputs folded into a shared bucket by `workers` calls at a time, which take turns. -/
def updateAll [FloatAddition] (f : AggregateFunction) (workers : Nat) (inputs : List UInt64)
    (b : Bucket) : Bucket :=
  match inputs with
  | [] => b
  | x :: rest =>
    let wave := x :: rest.take (workers - 1)
    let after := (Race.start f b (wave.map .update)).finish f (enoughRounds wave.length)
    updateAll f workers (rest.drop (workers - 1)) after.bucket
termination_by inputs.length
decreasing_by simp only [List.length_drop, List.length_cons]; omega

end Race
end Cohort
