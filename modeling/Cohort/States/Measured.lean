import Cohort.Block
import Cohort.States.Arrays
import Cohort.States.Buckets
import Cohort.States.Lists
/-
  What the layouts ask of memory.

  Buckets set places aside for the groups they expect, arrays the cells of those groups, and lists
  nothing until a cell is touched; then a list makes all places up to it.  With no aggregates lists
  and arrays have no cells and ask for nothing.

  The operations of `LocalStates` whose sizes a caller may name come here in a form that fails where
  there is no room, and otherwise is the same.  Those that fold check the counts besides, since such a
  caller may fold as often as he likes.
-/

namespace Cohort

/-- A layout that tells which blocks an operation is going to ask for. -/
class Measured (σ : Type) where
  /-- For a number of aggregates and of expected groups. -/
  createBlocks (aggregates maxGroups : Nat) : List Block
  /-- For a further group. -/
  pushBlocks (s : σ) : List Block
  /-- For folding a row into a group. -/
  updateBlocks (aggregates : List Aggregate) (ordinal : Nat) (s : σ) : List Block
  /-- For folding a group of `source` into a group. -/
  mergeBlocks (aggregates : List Aggregate) (ordinal : Nat) (source s : σ) : List Block
  /-- For making room for further groups. -/
  reserveBlocks (additional : Nat) (s : σ) : List Block

/-! ## The three layouts -/

instance : Measured BucketStates where
  createBlocks _ maxGroups := [.ofGroups maxGroups]
  pushBlocks s := [.ofTallies s.aggregateCount]
  updateBlocks _ _ _ := []
  mergeBlocks _ _ _ _ := []
  reserveBlocks additional s := [.ofGroups (s.groups.size + additional)]

instance : Measured ListStates where
  createBlocks aggregates _ := [.ofStores aggregates]
  pushBlocks _ := []
  updateBlocks aggregates ordinal s :=
    (aggregates.zip s.lists).map fun _ => .ofTallies (ordinal + 1)
  mergeBlocks aggregates ordinal source s :=
    ((aggregates.zip source.lists).zip s.lists).map fun _ => .ofTallies (ordinal + 1)
  reserveBlocks _ _ := []

/-- The blocks of arrays that are to have a capacity, none if they have it. -/
def ArrayStates.ensureBlocks (needed : Nat) (s : ArrayStates) : List Block :=
  if needed ≤ s.capacity then [] else s.arrays.map fun _ => .ofTallies needed

instance : Measured ArrayStates where
  createBlocks aggregates maxGroups :=
    .ofStores aggregates :: if aggregates = 0 then [] else [.ofTallies maxGroups]
  pushBlocks s := if s.groups = s.capacity then s.ensureBlocks (max (s.groups * 2) 1) else []
  updateBlocks _ _ _ := []
  mergeBlocks _ _ _ _ := []
  reserveBlocks additional s := s.ensureBlocks (s.groups + additional)

/-! ## Operations that ask for room -/

namespace LocalStates

variable {σ : Type} [LocalStates σ] [Measured σ]

/-- `create` for numbers that a caller names. -/
def tryCreate (aggregates maxGroups : Nat) : Except Error σ := do
  Block.demand (Measured.createBlocks σ aggregates maxGroups)
  return create aggregates maxGroups

/-- `push` to states that a caller has sized. -/
def tryPush (s : σ) : Except Error σ := do
  Block.demand (Measured.pushBlocks s)
  return push s

/-- `update` of a group that a caller names. -/
def tryUpdate [FloatAddition] (aggregates : List Aggregate) (t : Table) (row ordinal : Nat)
    (s : σ) : Except Error σ := do
  Block.demand (Measured.updateBlocks aggregates ordinal s)
  updateChecked aggregates t row ordinal s

/-- `merge` into a group that a caller names. -/
def tryMerge [FloatAddition] (aggregates : List Aggregate) (ordinal : Nat) (source : σ)
    (sourceOrdinal : Nat) (s : σ) : Except Error σ := do
  Block.demand (Measured.mergeBlocks aggregates ordinal source s)
  mergeChecked aggregates ordinal source sourceOrdinal s

/-- `reserve` for a number of groups that a caller names. -/
def tryReserve (additional : Nat) (s : σ) : Except Error σ := do
  Block.demand (Measured.reserveBlocks additional s)
  return reserve additional s

end LocalStates
end Cohort
