import Cohort.Aggregate.Basic
import Cohort.Block
/-
  Growing lists of tallies, one place per group.

  A list has no bound: a place that is touched for the first time is created, together with all
  before it, and a place that was never touched reads as empty.
-/

namespace Cohort

/-- The tallies of one aggregate by ordinal of the group. -/
structure TallyList where
  tallies : Array Tally
deriving DecidableEq

namespace TallyList

/-- A list without places. -/
def empty : TallyList := ⟨#[]⟩

/-- How many places there are. -/
def length (l : TallyList) : Nat := l.tallies.size

/-- The tally at a place, empty past the end. -/
def get (l : TallyList) (ordinal : Nat) : Tally := (l.tallies[ordinal]?).getD .empty

/-- The list with at least `n` places. -/
def extend (l : TallyList) (n : Nat) : TallyList :=
  ⟨l.tallies ++ Array.replicate (n - l.tallies.size) Tally.empty⟩

/-- Change the tally at a place, which is created first where needed. -/
def modify (l : TallyList) (ordinal : Nat) (change : Tally → Tally) : TallyList :=
  ⟨(l.extend (ordinal + 1)).tallies.modify ordinal change⟩

/-- Append a tally; the answer is its place. -/
def push (l : TallyList) (t : Tally) : Nat × TallyList := (l.tallies.size, ⟨l.tallies.push t⟩)

/-- Fold a row into a place.  The place is created even if the row does not contribute. -/
def apply [FloatAddition] (l : TallyList) (a : Aggregate) (t : Table) (row ordinal : Nat) :
    TallyList :=
  l.modify ordinal (a.updateTally t row)

/-- Fold a place of another list into a place of this one. -/
def mergePlace [FloatAddition] (l : TallyList) (f : AggregateFunction) (ordinal : Nat)
    (source : TallyList) (sourceOrdinal : Nat) : TallyList :=
  l.modify ordinal fun t => f.merge t (source.get sourceOrdinal)

/-! ## Sizes that a caller names -/

/-- A list without places that has room for some. -/
def tryOfCapacity (capacity : Nat) : Except Error TallyList := do
  Block.demand [.ofTallies capacity]
  return empty

/-- Ask for room up to a place. -/
def reach (ordinal : Nat) : Except Error Unit := Block.demand [.ofTallies (ordinal + 1)]

/-- `modify` at a place that a caller names. -/
def tryModify (l : TallyList) (ordinal : Nat) (change : Tally → Tally) :
    Except Error TallyList := do
  reach ordinal
  return l.modify ordinal change

/-- `apply` at a place that a caller names. -/
def tryApply [FloatAddition] (l : TallyList) (a : Aggregate) (t : Table) (row ordinal : Nat) :
    Except Error TallyList := do
  reach ordinal
  return l.apply a t row ordinal

/-- `mergePlace` at a place that a caller names. -/
def tryMergePlace [FloatAddition] (l : TallyList) (f : AggregateFunction) (ordinal : Nat)
    (source : TallyList) (sourceOrdinal : Nat) : Except Error TallyList := do
  reach ordinal
  return l.mergePlace f ordinal source sourceOrdinal

/-! ## A list as a map from ordinals to tallies -/

theorem get_empty (o : Nat) : empty.get o = .empty := rfl

/-- Places that are made by extending read as empty, like those past the end. -/
theorem get_extend (l : TallyList) (n o : Nat) : (l.extend n).get o = l.get o := by
  simp only [get, extend, Array.getElem?_append, Array.getElem?_replicate]
  by_cases ho : o < l.tallies.size
  · rw [if_pos ho]
  · rw [if_neg ho, Array.getElem?_eq_none (Nat.le_of_not_lt ho)]
    split <;> rfl

/-- A change shows at its own place only. -/
theorem get_modify (l : TallyList) (i o : Nat) (change : Tally → Tally) :
    (l.modify i change).get o = if i = o then change (l.get o) else l.get o := by
  have hget := get_extend l (i + 1) o
  have hsize : i < (l.extend (i + 1)).tallies.size := by
    simp only [extend, Array.size_append, Array.size_replicate]; omega
  simp only [modify, get, Array.getElem?_modify] at hget ⊢
  by_cases h : i = o
  · subst h
    rw [if_pos rfl, if_pos rfl, ← hget, Array.getElem?_eq_getElem hsize]
    rfl
  · rw [if_neg h, if_neg h, hget]

theorem get_push (l : TallyList) (t : Tally) (o : Nat) :
    (l.push t).2.get o = if o = l.length then t else l.get o := by
  have hget : (l.push t).2.get o = ((l.tallies.push t)[o]?).getD .empty := rfl
  rw [hget, Array.getElem?_push]
  by_cases ho : o = l.tallies.size
  · rw [if_pos ho, if_pos (show o = l.length from ho)]
    rfl
  · rw [if_neg ho, if_neg (show ¬o = l.length from ho)]
    rfl

/-- Changing a place makes the list reach at least past it. -/
theorem length_modify (l : TallyList) (i : Nat) (change : Tally → Tally) :
    (l.modify i change).length = max l.length (i + 1) := by
  simp only [modify, length, extend, Array.size_modify, Array.size_append, Array.size_replicate]
  omega

end TallyList
end Cohort
