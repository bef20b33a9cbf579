import Cohort.States.Basic
/-
  One bucket per group and aggregate.

  A group is a list of buckets of its own, so it can be moved to other states or shared as it is.
  What stays behind at its place is a group without cells.
-/

namespace Cohort

/-- The buckets of every group. -/
structure BucketStates where
  aggregateCount : Nat
  groups : Array (List Bucket)
deriving DecidableEq

namespace BucketStates

/-- The buckets of a group. -/
def group (s : BucketStates) (ordinal : Nat) : Except Error (List Bucket) :=
  match s.groups[ordinal]? with
  | some g => .ok g
  | none => .error (.outOfRange ordinal s.groups.size)

/-- Change the buckets of a group. -/
def modify (s : BucketStates) (ordinal : Nat) (change : List Bucket → List Bucket) :
    Except Error BucketStates :=
  if ordinal < s.groups.size then .ok { s with groups := s.groups.modify ordinal change }
  else .error (.outOfRange ordinal s.groups.size)

/-- Move the buckets of a group out. -/
def takeGroup (ordinal : Nat) (s : BucketStates) : Except Error (List Bucket × BucketStates) := do
  let g ← s.group ordinal
  let s ← s.modify ordinal fun _ => []
  return (g, s)

variable [FloatAddition]

instance : LocalStates BucketStates where
  mode := .bucket
  create aggregates _ := ⟨aggregates, #[]⟩
  size s := s.groups.size
  push s := { s with groups := s.groups.push (List.replicate s.aggregateCount .empty) }
  tallies s ordinal := (s.group ordinal).map fun g => g.map (·.tally)
  update aggregates t row ordinal s :=
    s.modify ordinal (alongside (fun a b => b.apply a t row) aggregates)
  merge aggregates ordinal source sourceOrdinal s := do
    let g ← source.group sourceOrdinal
    s.modify ordinal (alongside (fun p b => b.merge p.1.function p.2.tally) (aggregates.zip g))
  append _ source sourceOrdinal s := do
    let (g, source) ← source.takeGroup sourceOrdinal
    return (s.groups.size, { s with groups := s.groups.push g }, source)
  reserve _ s := s
  take := takeGroup

end BucketStates
end Cohort
