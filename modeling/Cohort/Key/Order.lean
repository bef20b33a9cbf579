import Cohort.Dictionary.Shared
import Cohort.Scalar.Order
/-
  A canonical order of keys.

  Keys compare by row, then by their values, then by hash.  The order does not depend on who found
  a key when, so it serves to list shared groups, which have no order of their own.
-/

namespace Cohort

namespace Key

/-- Compare two keys. -/
def compare (a b : Key) : Ordering :=
  (Ord.compare a.row b.row).then
    ((Scalar.compareLists a.values b.values).then (Ord.compare a.hash.toNat b.hash.toNat))

end Key

/-- All keys with their entries, in the order of the keys. -/
def SharedDictionary.sortedGroups {β : Type} (d : SharedDictionary β) : List (Key × β) :=
  d.groups.mergeSort fun a b => Key.compare a.1 b.1 != .gt

end Cohort
