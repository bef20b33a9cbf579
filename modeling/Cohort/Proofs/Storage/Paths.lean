import Cohort.Proofs.Storage.Undisturbed
import Cohort.Proofs.Storage.Progress
/-
  Three PATHS to the same tally: operations one at a time on a tally of the caller's own, on a
  bucket of the caller's own, and on a shared bucket.

  On a shared bucket, an operation that nobody else gets in the way of can still lose a
  compare-and-swap for no reason, any number of times.  So how many steps it takes is open, and a
  call ALONE is described by what it may leave (`Call.Leaves`), not by a number of steps.

  1. **One call.**  A call alone leaves one bucket and no other, that of the plain operation
     (`Call.leaves_iff`): what it leaves is what a race of a single call leaves, and the only order
     of a single call is that call.

  2. **One after the other.**  So along a sequence of calls the three paths agree step by step
     (`paths_agree`), from every tally, also from those that no run arrives at.

  3. **Counts.**  The agreement speaks of the program as long as counts stay below `2 ^ 64`.  Past
     that, a tally or a bucket of one's own stops with an error (`AggregateFunction.updateChecked`,
     `AggregateFunction.mergeChecked`), while the count of a shared bucket starts over.
-/

namespace Cohort.Bucket

variable [FloatAddition]

/-! ## The paths -/

/-- What a call does to a bucket of the caller's own. -/
def Call.exclusive (f : AggregateFunction) (b : Bucket) : Call → Bucket
  | .update input => b.update f input
  | .merge other => b.merge f other
  | .read => b

/-- What a call on a shared bucket does that is alone and loses no compare-and-swap. -/
def Call.shared (f : AggregateFunction) (b : Bucket) : Call → Bucket
  | .update input => b.updateShared f input
  | .merge other => b.mergeShared f other
  | .read => perform f .read b

/-- `b'` is what a call on the shared bucket `b` may leave that is alone: it has returned, whichever
    of its compare-and-swaps failed for no reason. -/
def Call.Leaves (f : AggregateFunction) (b : Bucket) (c : Call) (b' : Bucket) : Prop :=
  ∃ schedule, ((Race.start f b [c]).run f schedule).isOver = true ∧
    ((Race.start f b [c]).run f schedule).bucket = b'

/-- Calls on a shared bucket, each of them alone, with the bucket before, between and after them. -/
inductive OneByOne (f : AggregateFunction) : Bucket → List Call → List Bucket → Prop
  | done (b : Bucket) : OneByOne f b [] [b]
  | call {b b' : Bucket} {c : Call} {calls : List Call} {buckets : List Bucket}
      (leaves : c.Leaves f b b') (rest : OneByOne f b' calls buckets) :
      OneByOne f b (c :: calls) (b :: buckets)

/-! ## One call -/

variable (f : AggregateFunction)

theorem Call.exclusive_ofTally (t : Tally) (c : Call) :
    c.exclusive f (ofTally t) = ofTally (c.plain f t) := by
  cases c <;> rfl

theorem Call.shared_ofTally (t : Tally) (c : Call) :
    c.shared f (ofTally t) = ofTally (c.plain f t) := by
  cases c with
  | update input => exact perform_update f t input
  | merge other => exact perform_merge f t other
  | read => rfl

/-- **A call alone** can return, and then has done what the plain operation does. -/
theorem Call.leaves_iff {t : Tally} {c : Call} {b : Bucket} :
    c.Leaves f (ofTally t) b ↔ b = ofTally (c.plain f t) := by
  have hplain {schedule : List (Nat × Bool)}
      (hover : ((Race.start f (ofTally t) [c]).run f schedule).isOver = true) :
      ((Race.start f (ofTally t) [c]).run f schedule).bucket = ofTally (c.plain f t) := by
    obtain ⟨order, hperm, hbucket⟩ := Race.exists_order hover
    rw [hbucket, List.perm_singleton.mp hperm]
    rfl
  constructor
  · rintro ⟨schedule, hover, rfl⟩
    exact hplain hover
  · rintro rfl
    obtain ⟨rest, hover⟩ := Race.exists_isOver f t [c] []
    exact ⟨rest, hover, hplain hover⟩

/-! ## One after the other -/

variable {f}

omit [FloatAddition] in
/-- An operation on buckets that does what one on tallies does, does so along every sequence. -/
theorem scanl_ofTally {onBucket : Bucket → Call → Bucket} {onTally : Tally → Call → Tally}
    (h : ∀ t c, onBucket (ofTally t) c = ofTally (onTally t c)) (t : Tally) (calls : List Call) :
    calls.scanl onBucket (ofTally t) = (calls.scanl onTally t).map ofTally := by
  induction calls generalizing t with
  | nil => rfl
  | cons c calls ih =>
    rw [List.scanl_cons, List.scanl_cons, List.map_cons, h]
    exact congrArg _ (ih (onTally t c))

theorem oneByOne_iff {t : Tally} {calls : List Call} {buckets : List Bucket} :
    OneByOne f (ofTally t) calls buckets ↔
      buckets = (calls.scanl (Call.plain f) t).map ofTally := by
  induction calls generalizing t buckets with
  | nil =>
    constructor
    · rintro ⟨⟩
      rfl
    · rintro rfl
      exact .done _
  | cons c calls ih =>
    rw [List.scanl_cons, List.map_cons]
    constructor
    · intro h
      cases h with
      | call hleaves hrest =>
        cases (Call.leaves_iff f).mp hleaves
        rw [ih.mp hrest]
    · rintro rfl
      exact .call ((Call.leaves_iff f).mpr rfl) (ih.mpr rfl)

/-- **The three paths agree step by step.**  Whatever the tally at first and whatever the calls, a
    tally of one's own, a bucket of one's own and a shared bucket hold the same value, count and
    flag before, between and after the calls, and so the same finalized values; on the shared bucket
    also when compare-and-swaps fail for no reason, in which case every call can still return. -/
theorem paths_agree (f : AggregateFunction) (t : Tally) (calls : List Call) :
    (calls.scanl (Call.exclusive f) (ofTally t) = (calls.scanl (Call.plain f) t).map ofTally ∧
      calls.scanl (Call.shared f) (ofTally t) = (calls.scanl (Call.plain f) t).map ofTally ∧
      ∀ buckets, OneByOne f (ofTally t) calls buckets ↔
        buckets = (calls.scanl (Call.plain f) t).map ofTally) ∧
    (calls.scanl (Call.exclusive f) (ofTally t)).map (fun b => f.finalize b.tally) =
        (calls.scanl (Call.plain f) t).map f.finalize ∧
      (calls.scanl (Call.shared f) (ofTally t)).map (fun b => f.finalize b.tally) =
        (calls.scanl (Call.plain f) t).map f.finalize ∧
      ∀ buckets, OneByOne f (ofTally t) calls buckets →
        buckets.map (fun b => f.finalize b.tally) = (calls.scanl (Call.plain f) t).map f.finalize := by
  have hexclusive := scanl_ofTally (Call.exclusive_ofTally f) t calls
  have hshared := scanl_ofTally (Call.shared_ofTally f) t calls
  have hfinal (ts : List Tally) :
      (ts.map ofTally).map (fun b => f.finalize b.tally) = ts.map f.finalize := List.map_map
  refine ⟨⟨hexclusive, hshared, fun _ => oneByOne_iff⟩, ?_, ?_, fun buckets h => ?_⟩
  · rw [hexclusive, hfinal]
  · rw [hshared, hfinal]
  · rw [oneByOne_iff.mp h, hfinal]

end Cohort.Bucket
