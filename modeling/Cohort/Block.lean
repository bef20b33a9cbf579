import Cohort.Error
/-
  Blocks of memory.

  Places that lie side by side form a BLOCK.  A block takes its places times their width in bytes,
  and one that takes more than a program can address is refused before anything is done
  (`demand_eq_ok_iff`).

  Only a size that a caller names can be that large.  Rows and groups are counted where they are in
  memory already, so the operations that are meant for counted sizes do not ask for room; those that
  do have a `try` in front of their names.
-/

namespace Cohort

/-- Places that lie side by side, each of `width` bytes. -/
structure Block where
  places : Nat
  width : Nat
deriving DecidableEq

namespace Block

/-- The most bytes of one block: half of the 64-bit addresses, less a word. -/
def addressable : Nat := Nat.pow 2 63 - 8

/-- How many bytes a block takes. -/
def bytes (b : Block) : Nat := b.places * b.width

/-- Tallies or buckets, each of a value, a count and marks. -/
def ofTallies (places : Nat) : Block := ⟨places, 24⟩

/-- Stores of tallies, each of an address and two sizes. -/
def ofStores (places : Nat) : Block := ⟨places, 24⟩

/-- Groups of buckets, each of an address and a size. -/
def ofGroups (places : Nat) : Block := ⟨places, 16⟩

/-- Spans of rows, each of two row numbers. -/
def ofSpans (places : Nat) : Block := ⟨places, 16⟩

/-- Ask for blocks, all of which have to be addressable. -/
def demand : List Block → Except Error Unit
  | [] => .ok ()
  | b :: bs => if b.bytes ≤ addressable then demand bs else .error (.noRoom b.places b.width)

example : demand [ofGroups (2 ^ 59 - 1), ofTallies 3] = .ok () := by rfl
example : demand [ofTallies 3, ofGroups (2 ^ 59)] = .error (.noRoom (2 ^ 59) 16) := by rfl

end Block
end Cohort
