import Cohort.Proofs.Aggregate.Combination
import Cohort.Proofs.Lockstep
/-
  CHECKED counts: folding that fails where no word can hold the count.

  1. **One operation.**  A checked operation succeeds exactly if the count fits, and then does what
     the unchecked one does: an update by definition as a contribution does
     (`contributeChecked_eq_ok_iff`), and a merge unless there is nothing to bring in
     (`mergeChecked_eq_ok_iff`).

  2. **Any history.**  As long as the counts of the tallies at hand are words, what is asked for is
     the NUMBER of inputs, whatever the function and whatever the inputs were
     (`Reached.updateChecked`, `Reached.mergeChecked`).  So two callers whose tallies have taken in
     the same inputs fail at the same operation, and with the same error.
-/

namespace Cohort

namespace Tally

theorem demandCount_of_lt {k : Nat} (h : k < UInt64.size) : demandCount k = .ok () := if_pos h

/-- A count that no word can hold is named in the error. -/
theorem demandCount_of_le {k : Nat} (h : UInt64.size ≤ k) :
    demandCount k = .error (.outOfRange k UInt64.size) := if_neg (Nat.not_lt.mpr h)

/-- A count is granted exactly if a word can hold it. -/
theorem demandCount_eq_ok_iff {k : Nat} : demandCount k = .ok () ↔ k < UInt64.size := by
  rcases Nat.lt_or_ge k UInt64.size with h | h
  · exact ⟨fun _ => h, demandCount_of_lt⟩
  · rw [demandCount_of_le h]
    exact ⟨nofun, fun hlt => absurd hlt (Nat.not_lt.mpr h)⟩

end Tally

namespace AggregateFunction

variable [FloatAddition] {f : AggregateFunction} {t t' u : Tally} {w k : UInt64}

/-! ## One operation -/

/-- **A checked contribution** is a contribution, as long as there is a word for the count. -/
theorem contributeChecked_eq_ok_iff :
    f.contributeChecked t w k = .ok t' ↔
      t.count.toNat + k.toNat < UInt64.size ∧ f.contribute t w k = t' := by
  rw [contributeChecked, bind_eq_ok_iff, ← Tally.demandCount_eq_ok_iff]
  exact ⟨fun ⟨_, hk, ht'⟩ => ⟨hk, Except.ok.inj ht'⟩,
    fun ⟨hk, ht'⟩ => ⟨(), hk, congrArg Except.ok ht'⟩⟩

/-- **A checked merge** is a merge, as long as there is a word for all that it counts. -/
theorem mergeChecked_eq_ok_iff :
    f.mergeChecked t u = .ok t' ↔
      (f.ignores u = false → t.count.toNat + u.count.toNat < UInt64.size) ∧ f.merge t u = t' := by
  rw [mergeChecked]
  cases hignores : f.ignores u with
  | true =>
    rw [if_pos rfl, merge_of_ignores hignores]
    exact ⟨fun h => ⟨nofun, Except.ok.inj h⟩, fun h => congrArg Except.ok h.2⟩
  | false =>
    rw [if_neg Bool.false_ne_true, merge_of_not_ignores hignores, contributeChecked_eq_ok_iff]
    exact ⟨fun h => ⟨fun _ => h.1, h.2⟩, fun h => ⟨h.1 rfl, h.2⟩⟩

/-! ## Any history -/

/-- **One input more** asks for a word that holds the number of inputs. -/
theorem Reached.updateChecked {xs : List UInt64} (h : f.Reached xs t)
    (hxs : xs.length < UInt64.size) (w : UInt64) :
    f.updateChecked t w = do
      Tally.demandCount (xs.length + 1)
      return f.update t w := by
  rw [AggregateFunction.updateChecked, contributeChecked, h.toNat_count hxs]
  rfl

/-- **The inputs of two tallies** ask for a word that holds the number of all of them, also where
    the merge ignores one of the two. -/
theorem Reached.mergeChecked {xs ys : List UInt64} (h : f.Reached xs t) (h' : f.Reached ys u)
    (hxs : xs.length < UInt64.size) (hys : ys.length < UInt64.size) :
    f.mergeChecked t u = do
      Tally.demandCount (xs.length + ys.length)
      return f.merge t u := by
  rw [AggregateFunction.mergeChecked]
  cases hignores : f.ignores u with
  | true =>
    obtain rfl : ys = [] := h'.inputs_of_ignores (fun _ => eq_zero_of_ofNat_eq_zero hys) hignores
    rw [if_pos rfl, merge_of_ignores hignores, List.length_nil, Nat.add_zero,
      Tally.demandCount_of_lt hxs]
    rfl
  | false =>
    rw [if_neg Bool.false_ne_true, merge_of_not_ignores hignores, contributeChecked,
      h.toNat_count hxs, h'.toNat_count hys]

/-- An empty tally can take in any other one. -/
theorem mergeChecked_empty (f : AggregateFunction) (u : Tally) :
    f.mergeChecked .empty u = .ok (f.merge .empty u) := by
  refine mergeChecked_eq_ok_iff.mpr ⟨fun _ => ?_, rfl⟩
  show 0 + u.count.toNat < UInt64.size
  rw [Nat.zero_add]
  exact u.count.toNat_lt

end AggregateFunction

end Cohort
