import Cohort.Proofs.Storage.Turns
/-
  A call on a shared bucket that no other call DISTURBS does what the plain operation does.

  All calls that contribute start at the same point and bring a word and a weight, so the one thing
  to follow step by step is how such a call contributes (`steps_contributing`), kind by kind.  This
  holds of every tally the bucket may hold, also of those that no run arrives at.
-/

namespace Cohort.Bucket

variable [FloatAddition] (f : AggregateFunction)

/-- A call that has returned takes no more steps. -/
theorem steps_returned (c : Call) (n : Nat) (r : Option Tally) (b : Bucket) :
    steps f c n (.returned r, b) = (.returned r, b) := by
  induction n with
  | zero => rfl
  | succ n ih => exact ih

/-- The last step of a contribution. -/
theorem steps_addCount (c : Call) (n : Nat) (b : Bucket) :
    (steps f c (n + 1) (.addCount, b)).2 =
      { b with tally := { b.tally with count := b.tally.count + c.weight } } := by
  rw [steps]
  exact congrArg Prod.snd (steps_returned f c n none _)

/-- **An undisturbed contribution** brings in its word with its weight. -/
theorem steps_contributing (c : Call) (t : Tally) :
    (steps f c undisturbedSteps (Call.start.contributing f, ofTally t)).2 =
      ofTally (f.contribute t c.word c.weight) := by
  rcases f.kind_cases with hk | hk | hk
  · rw [AggregateFunction.contribute_of_count hk]
    rw [Call.contributing_of_count hk]
    exact steps_addCount f c 6 (ofTally t)
  · rw [AggregateFunction.contribute_of_sum hk]
    cases hn : f.numeric with
    | int64 =>
      rw [Call.contributing_of_int64 hk hn]
      exact steps_addCount f c 5 ⟨{ t with value := t.value + c.word }, false⟩
    | float64 =>
      rw [Call.contributing_of_float64 hk hn]
      have hswap : step f c false (.swapSum t.value) (ofTally t) =
          (.addCount, ⟨{ t with value := f.numeric.add t.value c.word }, false⟩) :=
        if_pos ⟨rfl, rfl⟩
      show (steps f c 5 (step f c false (.swapSum t.value) (ofTally t))).2 = _
      rw [hswap, hn]
      exact steps_addCount f c 4 _
  · rw [AggregateFunction.contribute_of_extremum hk]
    rw [Call.contributing_of_extremum hk]
    obtain ⟨value, count, isSet⟩ := t
    cases isSet with
    | false => exact steps_addCount f c 0 ⟨⟨c.word, count, true⟩, false⟩
    | true =>
      -- flag and value are read; then either the word is dropped or it replaces what was read
      show (steps f c 5 (c.compare f value, ofTally ⟨value, count, true⟩)).2 = _
      rw [Call.compare, AggregateFunction.best, if_pos rfl]
      by_cases hw : f.improves c.word value = true
      · rw [if_pos hw, if_pos hw]
        have hswap : step f c false (.swapBest value) (ofTally ⟨value, count, true⟩) =
            (.addCount, ⟨⟨c.word, count, true⟩, false⟩) := if_pos ⟨rfl, rfl⟩
        show (steps f c 4 (step f c false (.swapBest value) (ofTally ⟨value, count, true⟩))).2 = _
        rw [hswap]
        exact steps_addCount f c 3 _
      · rw [if_neg hw, if_neg hw]
        exact steps_addCount f c 4 _

/-- **An undisturbed update is the plain one.** -/
theorem perform_update (t : Tally) (input : UInt64) :
    perform f (.update input) (ofTally t) = ofTally (f.update t input) :=
  steps_contributing f (.update input) t

/-- **An undisturbed merge is the plain one**, also where there is nothing to merge. -/
theorem perform_merge (t other : Tally) :
    perform f (.merge other) (ofTally t) = ofTally (f.merge t other) := by
  cases hi : f.ignores other with
  | true =>
    rw [AggregateFunction.merge_of_ignores hi, perform, Call.start, if_pos hi, steps_returned]
  | false =>
    rw [AggregateFunction.merge_of_not_ignores hi, perform, Call.start, hi]
    exact steps_contributing f (.merge other) t

end Cohort.Bucket
