import Cohort.Dictionary.Shared
import Cohort.Storage.Bucket
/-
  Shared groups: one list of buckets per key, for all workers.

  A worker that has the slot of a group changes its buckets one at a time.  Such a change is a
  `Visit`; as seen from here it is one step, and what happens inside it is the matter of
  `Storage.Bucket`.
-/

namespace Cohort

/-- The groups of all workers, each with one bucket per aggregate. -/
abbrev SharedGroups := SharedDictionary (List Bucket)

/-- A call on one bucket of one group. -/
structure Visit where
  slot : Nat
  /-- The number of the aggregate, which is the place of its bucket. -/
  aggregate : Nat
  function : AggregateFunction
  call : Bucket.Call
deriving DecidableEq

namespace Visit

variable [FloatAddition]

/-- The groups after a visit. -/
def perform (v : Visit) (g : SharedGroups) : SharedGroups :=
  g.modify v.slot fun buckets => buckets.modify v.aggregate (Bucket.perform v.function v.call)

end Visit

namespace SharedGroups

/-- The tally of one aggregate in a group. -/
def load (g : SharedGroups) (aggregate slot : Nat) : Except Error Tally :=
  match g.get? slot with
  | none => .error (.outOfRange slot g.size)
  | some buckets =>
    match buckets[aggregate]? with
    | none => .error (.outOfRange aggregate buckets.length)
    | some b => .ok b.tally

end SharedGroups
end Cohort
