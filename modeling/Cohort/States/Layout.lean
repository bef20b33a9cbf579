import Cohort.States.Arrays
import Cohort.States.Buckets
import Cohort.States.Lists
/-
  The layout that a storage mode asks for.

  What holds for `m.Layout`, whatever the mode `m`, holds for all three layouts.
-/

namespace Cohort.StorageMode

/-- The states of a storage mode. -/
def Layout : StorageMode → Type
  | .bucket => BucketStates
  | .list => ListStates
  | .array => ArrayStates

instance [FloatAddition] : (m : StorageMode) → LocalStates m.Layout
  | .bucket => inferInstanceAs (LocalStates BucketStates)
  | .list => inferInstanceAs (LocalStates ListStates)
  | .array => inferInstanceAs (LocalStates ArrayStates)

/-- The layout of a mode knows the mode. -/
theorem mode_layout [FloatAddition] (m : StorageMode) : LocalStates.mode m.Layout = m := by
  cases m <;> rfl

end Cohort.StorageMode
