import Cohort.Aggregate.Basic
import Cohort.Config.Basic
import Cohort.Storage.Bucket
/-
  States: the tallies of all groups of one private dictionary.

  Groups are numbered like the keys of the dictionary.  Every aggregate has one CELL for a group,
  and the operations walk over aggregates and cells side by side; where one of the two lists is
  longer, its rest is left as it is.

  `LocalStates` is the interface of a layout.  A caller creates a group before updating it, and does
  not come back to a group that was moved out by `append` or `take`.
-/

namespace Cohort

/-- Change the second list by the first, place by place. -/
def alongside {α β : Type} (change : α → β → β) : List α → List β → List β
  | a :: as, b :: bs => change a b :: alongside change as bs
  | _, bs => bs

/-- Change the second list by the first, place by place, where a change may fail. -/
def tryAlongside {α β : Type} (change : α → β → Except Error β) :
    List α → List β → Except Error (List β)
  | a :: as, b :: bs => do
    let b ← change a b
    let bs ← tryAlongside change as bs
    return b :: bs
  | _, bs => .ok bs

theorem length_alongside {α β : Type} (change : α → β → β) :
    ∀ (as : List α) (bs : List β), (alongside change as bs).length = bs.length
  | [], _ => rfl
  | _ :: _, [] => rfl
  | _ :: as, _ :: bs => congrArg (· + 1) (length_alongside change as bs)

/-- A change that never fails needs no care for failure. -/
theorem tryAlongside_ok {α β : Type} (change : α → β → β) :
    ∀ (as : List α) (bs : List β),
      tryAlongside (fun a b => .ok (change a b)) as bs = .ok (alongside change as bs)
  | [], _ => rfl
  | _ :: _, [] => rfl
  | a :: as, b :: bs => by
    rw [tryAlongside, tryAlongside_ok change as bs]
    rfl

/-- A layout of the tallies of all groups. -/
class LocalStates (σ : Type) where
  /-- The storage mode that asks for this layout. -/
  mode : StorageMode
  /-- No groups yet, for a number of aggregates, `maxGroups` groups being expected. -/
  create (aggregates maxGroups : Nat) : σ
  /-- How many groups there are. -/
  size (s : σ) : Nat
  /-- A further group, empty. -/
  push (s : σ) : σ
  /-- The tallies of a group, one per aggregate. -/
  tallies (s : σ) (ordinal : Nat) : Except Error (List Tally)
  /-- Fold a row into every aggregate of a group. -/
  update (aggregates : List Aggregate) (t : Table) (row ordinal : Nat) (s : σ) : Except Error σ
  /-- Fold a group of `source` into a group of `s`. -/
  merge (aggregates : List Aggregate) (ordinal : Nat) (source : σ) (sourceOrdinal : Nat) (s : σ) :
    Except Error σ
  /-- Move a group of `source` into a new group of `s`: the ordinal it has there, `s` and `source`. -/
  append (aggregates : List Aggregate) (source : σ) (sourceOrdinal : Nat) (s : σ) :
    Except Error (Nat × σ × σ)
  /-- Make room for further groups. -/
  reserve (additional : Nat) (s : σ) : σ
  /-- Move a group out into buckets that can be shared. -/
  take (ordinal : Nat) (s : σ) : Except Error (List Bucket × σ)

namespace LocalStates

variable {σ : Type} [LocalStates σ]

/-- The tally of one aggregate in a group. -/
def load (s : σ) (aggregate ordinal : Nat) : Except Error Tally := do
  let ts ← tallies s ordinal
  match ts[aggregate]? with
  | some t => .ok t
  | none => .error (.outOfRange aggregate ts.length)

/-- Fold a group into shared buckets. -/
def mergeInto [FloatAddition] (aggregates : List Aggregate) (ordinal : Nat) (s : σ)
    (target : List Bucket) : Except Error (List Bucket) := do
  let ts ← tallies s ordinal
  return alongside (fun p b => b.mergeShared p.1.function p.2) (aggregates.zip ts) target

/-! ## Operations that check the counts

The tallies of the group are folded first, apart from the states, and only if none of the counts
stops that are the states changed. -/

variable [FloatAddition]

/-- `update` with checked counts. -/
def updateChecked (aggregates : List Aggregate) (t : Table) (row ordinal : Nat) (s : σ) :
    Except Error σ := do
  let ts ← tallies s ordinal
  let _ ← tryAlongside (fun a => a.updateTallyChecked t row) aggregates ts
  update aggregates t row ordinal s

/-- `merge` with checked counts. -/
def mergeChecked (aggregates : List Aggregate) (ordinal : Nat) (source : σ) (sourceOrdinal : Nat)
    (s : σ) : Except Error σ := do
  let ts ← tallies s ordinal
  let others ← tallies source sourceOrdinal
  let _ ← tryAlongside (fun p t => p.1.function.mergeChecked t p.2) (aggregates.zip others) ts
  merge aggregates ordinal source sourceOrdinal s

/-- `append` with checked counts, those of the new group being what the group is folded into. -/
def appendChecked (aggregates : List Aggregate) (source : σ) (sourceOrdinal : Nat) (s : σ) :
    Except Error (Nat × σ × σ) := do
  let ts ← tallies (push s) (size s)
  let others ← tallies source sourceOrdinal
  let _ ← tryAlongside (fun p t => p.1.function.mergeChecked t p.2) (aggregates.zip others) ts
  append aggregates source sourceOrdinal s

end LocalStates
end Cohort
