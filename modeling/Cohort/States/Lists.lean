import Cohort.States.Basic
import Cohort.Storage.TallyList
/-
  One growing list of tallies per aggregate.

  A list creates a place when the place is first touched, so a new group costs nothing but its
  number.  A group is moved by folding it into an empty one; its tallies stay behind.
-/

namespace Cohort

/-- The list of every aggregate. -/
structure ListStates where
  lists : List TallyList
  groups : Nat
deriving DecidableEq

namespace ListStates

/-- A further group. -/
def pushGroup (s : ListStates) : ListStates := { s with groups := s.groups + 1 }

/-- The tallies of a group. -/
def group (s : ListStates) (ordinal : Nat) : List Tally := s.lists.map (·.get ordinal)

variable [FloatAddition]

/-- Fold a group of other states into a group. -/
def mergeGroup (aggregates : List Aggregate) (ordinal : Nat) (source : ListStates)
    (sourceOrdinal : Nat) (s : ListStates) : ListStates :=
  { s with
    lists := alongside (fun p l => l.mergePlace p.1.function ordinal p.2 sourceOrdinal)
      (aggregates.zip source.lists) s.lists }

instance : LocalStates ListStates where
  mode := .list
  create aggregates _ := ⟨List.replicate aggregates .empty, 0⟩
  size s := s.groups
  push := pushGroup
  tallies s ordinal := .ok (s.group ordinal)
  update aggregates t row ordinal s :=
    .ok { s with lists := alongside (fun a l => l.apply a t row ordinal) aggregates s.lists }
  merge aggregates ordinal source sourceOrdinal s :=
    .ok (mergeGroup aggregates ordinal source sourceOrdinal s)
  append aggregates source sourceOrdinal s :=
    .ok (s.groups, mergeGroup aggregates s.groups source sourceOrdinal s.pushGroup, source)
  reserve _ s := s
  take ordinal s := .ok ((s.group ordinal).map .ofTally, s)

end ListStates
end Cohort
