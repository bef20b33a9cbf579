import Std.Data.TreeMap
import Cohort.Key.Evaluator
/-
  Dictionaries: keys numbered in the order of discovery.

  The number of a key is its ORDINAL; ordinals are dense, start at zero and never change.  Lookup
  goes by hash first: the index lists, for every hash, the ordinals of the keys with that hash, and
  only among those are hash and values compared.  `mem_index` says that the index is exact, so it
  narrows the search and never decides it.
-/

namespace Cohort

/-- Keys by ordinal, with an index by hash. -/
structure Dictionary where
  keys : Array Key
  /-- The ordinals of the keys of each hash. -/
  index : Std.TreeMap UInt64 (List Nat)
  /-- The index lists exactly the keys of the hash. -/
  mem_index : ∀ h o, o ∈ index.getD h [] ↔ ∃ k, keys[o]? = some k ∧ k.hash = h

namespace Dictionary

/-- A dictionary without keys. -/
def empty : Dictionary := ⟨#[], ∅, by simp⟩

/-- How many keys there are. -/
def size (d : Dictionary) : Nat := d.keys.size

/-- The ordinal of a key of this hash that satisfies `p`. -/
def findWhere (d : Dictionary) (hash : UInt64) (p : Key → Bool) : Option Nat :=
  (d.index.getD hash []).find? fun o => (d.keys[o]?).any p

/-- The ordinal of a key. -/
def find (d : Dictionary) (k : Key) : Option Nat := d.findWhere k.hash fun other => other.same k

/-- The ordinal of the group that an evaluator's remembered row belongs to. -/
def findRemembered (d : Dictionary) (ev : KeyEvaluator) : Option Nat :=
  d.findWhere ev.hash ev.isMatch

/-- Append a key; its ordinal is the old size. -/
def insert (d : Dictionary) (k : Key) : Dictionary where
  keys := d.keys.push k
  index := d.index.insert k.hash (d.keys.size :: d.index.getD k.hash [])
  mem_index := by
    intro h o
    rw [Std.TreeMap.getD_insert, Array.getElem?_push]
    simp only [Std.LawfulEqCmp.compare_eq_iff_eq]
    by_cases hh : k.hash = h
    · subst hh
      simp only [if_true, List.mem_cons, d.mem_index]
      by_cases ho : o = d.keys.size
      · subst ho; simp
      · simp [ho]
    · simp only [hh, if_false, d.mem_index]
      by_cases ho : o = d.keys.size
      · subst ho; simp [hh]
      · simp [ho]

/-- The group of a row: its ordinal, whether it is new, and dictionary and evaluator after the row
    was looked up and, if new, inserted. -/
def findOrInsert (d : Dictionary) (ev : KeyEvaluator) (t : Table) (row : Nat) :
    (Nat × Bool) × Dictionary × KeyEvaluator :=
  let ev := ev.visit t row
  match d.findRemembered ev with
  | some o => ((o, false), d, ev)
  | none => ((d.size, true), d.insert (ev.keyAt row), ev)

theorem keys_insert (d : Dictionary) (k : Key) : (d.insert k).keys = d.keys.push k := rfl

theorem size_insert (d : Dictionary) (k : Key) : (d.insert k).size = d.size + 1 :=
  Array.size_push k

/-! ## What lookup finds -/

/-- What is found has the hash asked for and satisfies the condition. -/
theorem findWhere_eq_some {d : Dictionary} {h : UInt64} {p : Key → Bool} {o : Nat}
    (hf : d.findWhere h p = some o) : ∃ k, d.keys[o]? = some k ∧ k.hash = h ∧ p k = true := by
  obtain ⟨k, hk, hh⟩ := (d.mem_index h o).mp (List.mem_of_find?_eq_some hf)
  have hp := List.find?_some hf
  simp only [hk, Option.any_some] at hp
  exact ⟨k, hk, hh, hp⟩

/-- Nothing is found only if no key of the hash satisfies the condition. -/
theorem findWhere_eq_none {d : Dictionary} {h : UInt64} {p : Key → Bool}
    (hf : d.findWhere h p = none) {o : Nat} {k : Key} (hk : d.keys[o]? = some k)
    (hh : k.hash = h) : p k = false := by
  have hm := (d.mem_index h o).mpr ⟨k, hk, hh⟩
  have hp := List.find?_eq_none.mp hf o hm
  simpa [hk] using hp

/-- The row that is remembered is found exactly as its key would be. -/
theorem findRemembered_eq_find (d : Dictionary) (ev : KeyEvaluator) (row : Nat) :
    d.findRemembered ev = d.find (ev.keyAt row) := rfl

end Dictionary
end Cohort
