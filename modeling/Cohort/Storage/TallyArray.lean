import Cohort.Storage.TallyList
/-
  Arrays of tallies of fixed capacity, one place per group.

  The capacity changes by `grow` only.  Reading past it gives an empty tally, changing a place past
  it is an error.  Places that were never changed are empty, so only those up to the highest changed
  one are kept, as a list that is never longer than the capacity.
-/

namespace Cohort

/-- The tallies of one aggregate by ordinal of the group, with a fixed number of places. -/
structure TallyArray where
  /-- How many places there are. -/
  capacity : Nat
  /-- The places up to the highest one that was ever changed. -/
  touched : TallyList
  length_le : touched.length ≤ capacity
deriving DecidableEq

namespace TallyArray

/-- An array of empty places. -/
def ofCapacity (capacity : Nat) : TallyArray := ⟨capacity, .empty, Nat.zero_le capacity⟩

/-- Highest place changed so far, plus one. -/
def length (a : TallyArray) : Nat := a.touched.length

/-- The tally at a place, empty past the capacity. -/
def get (a : TallyArray) (ordinal : Nat) : Tally := a.touched.get ordinal

/-- Change the tally at a place. -/
def modify (a : TallyArray) (ordinal : Nat) (change : Tally → Tally) : Except Error TallyArray :=
  if h : ordinal < a.capacity then
    .ok ⟨a.capacity, a.touched.modify ordinal change, by
      rw [TallyList.length_modify]
      exact Nat.max_le.mpr ⟨a.length_le, h⟩⟩
  else .error (.outOfRange ordinal a.capacity)

/-- Add empty places at the end. -/
def grow (a : TallyArray) (additional : Nat) : TallyArray :=
  ⟨a.capacity + additional, a.touched, Nat.le_add_right_of_le a.length_le⟩

variable [FloatAddition]

/-- Fold a row into a place.  The place counts as changed even if the row does not contribute. -/
def apply (a : TallyArray) (g : Aggregate) (t : Table) (row ordinal : Nat) :
    Except Error TallyArray :=
  a.modify ordinal (g.updateTally t row)

/-- Fold a place of another array into a place of this one. -/
def mergePlace (a : TallyArray) (f : AggregateFunction) (ordinal : Nat) (source : TallyArray)
    (sourceOrdinal : Nat) : Except Error TallyArray :=
  a.modify ordinal fun t => f.merge t (source.get sourceOrdinal)

omit [FloatAddition]

/-! ## Sizes that a caller names -/

/-- `ofCapacity` for a number that a caller names. -/
def tryOfCapacity (capacity : Nat) : Except Error TallyArray := do
  Block.demand [.ofTallies capacity]
  return ofCapacity capacity

/-- `grow` by a number that a caller names. -/
def tryGrow (a : TallyArray) (additional : Nat) : Except Error TallyArray := do
  Block.demand [.ofTallies (a.capacity + additional)]
  return a.grow additional

/-! ## An array as a map from ordinals to tallies -/

theorem get_ofCapacity (n o : Nat) : (ofCapacity n).get o = .empty := rfl

/-- New places read as empty, like those past the end. -/
theorem get_grow (a : TallyArray) (n o : Nat) : (a.grow n).get o = a.get o := rfl

theorem capacity_grow (a : TallyArray) (n : Nat) : (a.grow n).capacity = a.capacity + n := rfl

/-- A change succeeds exactly at the places there are. -/
theorem modify_eq_ok_iff {a b : TallyArray} {i : Nat} {change : Tally → Tally} :
    a.modify i change = .ok b ↔
      i < a.capacity ∧ b.capacity = a.capacity ∧ b.touched = a.touched.modify i change := by
  unfold modify
  by_cases h : i < a.capacity
  · rw [dif_pos h]
    constructor
    · intro hb; cases hb; exact ⟨h, rfl, rfl⟩
    · obtain ⟨c, l, hl⟩ := b
      rintro ⟨-, hc, ht⟩
      cases hc; cases ht; rfl
  · rw [dif_neg h]
    constructor
    · intro hb; cases hb
    · intro hb; exact absurd hb.1 h

theorem exists_modify {a : TallyArray} {i : Nat} (h : i < a.capacity) (change : Tally → Tally) :
    ∃ b, a.modify i change = .ok b := ⟨_, dif_pos h⟩

/-- A change shows at its own place only. -/
theorem get_of_modify {a b : TallyArray} {i : Nat} {change : Tally → Tally}
    (h : a.modify i change = .ok b) (o : Nat) :
    b.get o = if i = o then change (a.get o) else a.get o := by
  rw [get, (modify_eq_ok_iff.mp h).2.2, TallyList.get_modify]
  rfl

/-- A change keeps the capacity. -/
theorem capacity_of_modify {a b : TallyArray} {i : Nat} {change : Tally → Tally}
    (h : a.modify i change = .ok b) : b.capacity = a.capacity := (modify_eq_ok_iff.mp h).2.1

/-- Changing a place makes the length reach at least past it. -/
theorem length_of_modify {a b : TallyArray} {i : Nat} {change : Tally → Tally}
    (h : a.modify i change = .ok b) : b.length = max a.length (i + 1) := by
  rw [length, (modify_eq_ok_iff.mp h).2.2, TallyList.length_modify]
  rfl

end TallyArray
end Cohort
