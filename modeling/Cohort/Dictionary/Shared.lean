import Cohort.Dictionary.Local
/-
  Shared dictionaries: one entry per key, whoever asks first.

  An entry is found or added in one atomic step.  Entries are never removed and never replaced, so
  the SLOT of an entry, its ordinal in the dictionary, stands for the entry itself: two callers that
  hold the same slot hold the same entry.
-/

namespace Cohort

/-- Keys with one entry each. -/
structure SharedDictionary (β : Type) where
  dictionary : Dictionary
  entries : Array β
  /-- Every key has an entry. -/
  entries_size : entries.size = dictionary.keys.size

namespace SharedDictionary

variable {β : Type}

/-- A shared dictionary without entries. -/
def empty : SharedDictionary β := ⟨.empty, #[], rfl⟩

/-- How many entries there are. -/
def size (d : SharedDictionary β) : Nat := d.entries.size

/-- The slot of a key. -/
def find (d : SharedDictionary β) (k : Key) : Option Nat := d.dictionary.find k

/-- The slot of the group that an evaluator's remembered row belongs to. -/
def findRemembered (d : SharedDictionary β) (ev : KeyEvaluator) : Option Nat :=
  d.dictionary.findRemembered ev

/-- Append an entry for a key; its slot is the old size. -/
def insert (d : SharedDictionary β) (k : Key) (entry : β) : SharedDictionary β :=
  ⟨d.dictionary.insert k, d.entries.push entry, by simp [Dictionary.insert, d.entries_size]⟩

/-- The slot of a key, whether it was added by this call, and the dictionary afterwards.  `init` is
    called only to add it. -/
def getOrInsertWith (d : SharedDictionary β) (k : Key) (init : Unit → β) :
    (Nat × Bool) × SharedDictionary β :=
  match d.find k with
  | some slot => ((slot, false), d)
  | none => ((d.size, true), d.insert k (init ()))

/-- The slot of the group of a row: looked up by what the evaluator remembers, and by its key if
    that finds nothing. -/
def getOrInsertRow (d : SharedDictionary β) (ev : KeyEvaluator) (t : Table) (row : Nat)
    (init : Unit → β) : ((Nat × Bool) × SharedDictionary β) × KeyEvaluator :=
  let ev := ev.visit t row
  match d.findRemembered ev with
  | some slot => (((slot, false), d), ev)
  | none => (d.getOrInsertWith (ev.keyAt row) init, ev)

/-- Donate an entry: no slot if it was taken, else the slot of the entry that is already there.
    `init` is called only when the entry is taken. -/
def tryInsertWith (d : SharedDictionary β) (k : Key) (init : Unit → β) :
    Option Nat × SharedDictionary β :=
  match d.find k with
  | some slot => (some slot, d)
  | none => (none, d.insert k (init ()))

/-- The entry of a slot. -/
def get? (d : SharedDictionary β) (slot : Nat) : Option β := d.entries[slot]?

/-- Change the entry of a slot. -/
def modify (d : SharedDictionary β) (slot : Nat) (change : β → β) : SharedDictionary β :=
  ⟨d.dictionary, d.entries.modify slot change, by simp [d.entries_size]⟩

/-- All keys with their entries, by slot. -/
def groups (d : SharedDictionary β) : List (Key × β) :=
  d.dictionary.keys.toList.zip d.entries.toList

/-! ## Slots are stable -/

theorem size_insert (d : SharedDictionary β) (k : Key) (entry : β) :
    (d.insert k entry).size = d.size + 1 := Array.size_push entry

/-- An added entry is found at its slot, and no other slot notices. -/
theorem get?_insert (d : SharedDictionary β) (k : Key) (entry : β) (slot : Nat) :
    (d.insert k entry).get? slot = if slot = d.size then some entry else d.get? slot := by
  rw [get?, insert, Array.getElem?_push]
  rfl

/-- A change shows at its own slot only. -/
theorem get?_modify (d : SharedDictionary β) (i : Nat) (change : β → β) (slot : Nat) :
    (d.modify i change).get? slot =
      if i = slot then (d.get? slot).map change else d.get? slot := by
  rw [get?, modify, Array.getElem?_modify]
  rfl

theorem size_modify (d : SharedDictionary β) (i : Nat) (change : β → β) :
    (d.modify i change).size = d.size := Array.size_modify

end SharedDictionary
end Cohort
