import Cohort.States.Basic
import Cohort.Storage.TallyArray
/-
  One array of tallies per aggregate, sized in advance.

  All arrays grow together.  `reserve` grows them to just what is asked for; a group pushed at
  capacity doubles them, which happens only if more groups turn up than were expected.
-/

namespace Cohort

/-- The array of every aggregate. -/
structure ArrayStates where
  arrays : List TallyArray
  groups : Nat
deriving DecidableEq

namespace ArrayStates

/-- How many groups there is room for; none without aggregates. -/
def capacity (s : ArrayStates) : Nat :=
  match s.arrays with
  | [] => 0
  | a :: _ => a.capacity

/-- Grow all arrays to a capacity, unless they have it. -/
def ensure (needed : Nat) (s : ArrayStates) : ArrayStates :=
  { s with arrays := s.arrays.map (·.grow (needed - s.capacity)) }

/-- A further group, with room made for it where there is none. -/
def pushGroup (s : ArrayStates) : ArrayStates :=
  let roomy := if s.groups = s.capacity then s.ensure (max (s.groups * 2) 1) else s
  { roomy with groups := s.groups + 1 }

/-- The tallies of a group. -/
def group (s : ArrayStates) (ordinal : Nat) : List Tally := s.arrays.map (·.get ordinal)

variable [FloatAddition]

/-- Fold a group of other states into a group. -/
def mergeGroup (aggregates : List Aggregate) (ordinal : Nat) (source : ArrayStates)
    (sourceOrdinal : Nat) (s : ArrayStates) : Except Error ArrayStates := do
  let arrays ← tryAlongside (fun p a => a.mergePlace p.1.function ordinal p.2 sourceOrdinal)
    (aggregates.zip source.arrays) s.arrays
  return { s with arrays := arrays }

instance : LocalStates ArrayStates where
  mode := .array
  create aggregates maxGroups := ⟨List.replicate aggregates (.ofCapacity maxGroups), 0⟩
  size s := s.groups
  push := pushGroup
  tallies s ordinal := .ok (s.group ordinal)
  update aggregates t row ordinal s := do
    let arrays ← tryAlongside (fun g a => a.apply g t row ordinal) aggregates s.arrays
    return { s with arrays := arrays }
  merge := mergeGroup
  append aggregates source sourceOrdinal s := do
    let target ← mergeGroup aggregates s.groups source sourceOrdinal s.pushGroup
    return (s.groups, target, source)
  reserve additional s := s.ensure (s.groups + additional)
  take ordinal s := .ok ((s.group ordinal).map .ofTally, s)

end ArrayStates
end Cohort
