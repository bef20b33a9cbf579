import Mathlib.Algebra.Ring.Int.Defs
import Cohort.Proofs.Aggregate.Combination
import Cohort.Scalar.Order
/-
  What the VALUE of an aggregate says about its inputs.

  1. **Sums.**  Words add as integers do, modulo 2^64 (`value_foldInputs_of_int64`).

  2. **Extrema.**  The word that a fold keeps is one of its inputs, and no input improves on it
     (`HoldsBest`).  For a minimum this means least, for a maximum greatest, in the order by which
     scalars are sorted (`Numeric.compare_decode`).

  3. **Nothing.**  Of no inputs a count is zero and everything else is NULL; of some inputs nothing
     is NULL.  A sum looks at its count for this, which is a word, so the number of inputs must fit.

  `Describes` puts these together, and `describes_foldInputs` says it of every function.
-/

namespace Cohort

namespace Numeric

/-- Words of a domain are sorted as their values are. -/
theorem compare_decode (n : Numeric) (a b : UInt64) :
    Scalar.compare (n.decode a) (n.decode b) = Ord.compare (n.rank a) (n.rank b) := by
  cases n <;> rfl

theorem isLE_compare_decode {n : Numeric} {a b : UInt64} :
    (Scalar.compare (n.decode a) (n.decode b)).isLE = true ↔ n.rank a ≤ n.rank b := by
  rw [compare_decode]
  exact Std.isLE_compare

theorem decode_ne_null (n : Numeric) (w : UInt64) : n.decode w ≠ .null := by
  cases n <;> exact nofun

end Numeric

namespace AggregateFunction

/-- What the value of an aggregate says about the inputs it was made from. -/
structure Describes (f : AggregateFunction) (inputs : List UInt64) (v : Scalar) : Prop where
  /-- A count is their number. -/
  count : f.kind = .count → v = .int (Int64.ofNat inputs.length)
  /-- A sum of integers is their sum modulo 2^64. -/
  sum : f.kind = .sum → f.numeric = .int64 → inputs ≠ [] →
    v = .int (Int64.ofInt (inputs.map fun w => w.toInt64.toInt).sum)
  /-- A minimum is the least of them. -/
  min : f.kind = .min → inputs ≠ [] → ∃ w ∈ inputs, v = f.numeric.decode w ∧
    ∀ w' ∈ inputs, (Scalar.compare v (f.numeric.decode w')).isLE
  /-- A maximum is the greatest of them. -/
  max : f.kind = .max → inputs ≠ [] → ∃ w ∈ inputs, v = f.numeric.decode w ∧
    ∀ w' ∈ inputs, (Scalar.compare (f.numeric.decode w') v).isLE
  /-- All but a count are NULL exactly if there are none. -/
  null : f.kind ≠ .count → (v = .null ↔ inputs = [])

/-! ## Reading -/

theorem finalize_of_count {f : AggregateFunction} (hk : f.kind = .count) (tally : Tally) :
    f.finalize tally = .int tally.count.toInt64 := by
  rw [finalize, hk]

theorem finalize_of_sum {f : AggregateFunction} (hk : f.kind = .sum) (tally : Tally) :
    f.finalize tally = if tally.count = 0 then .null else f.numeric.decode tally.value := by
  rw [finalize, hk]

theorem finalize_of_extremum {f : AggregateFunction} (hk : f.IsExtremum) (tally : Tally) :
    f.finalize tally = if tally.isSet then f.numeric.decode tally.value else .null := by
  rcases hk with hk | hk <;> rw [finalize, hk]

theorem finalize_eq_null_iff_of_sum {f : AggregateFunction} (hk : f.IsSum) (tally : Tally) :
    f.finalize tally = .null ↔ tally.count = 0 := by
  rcases hk with hk | hk <;> rw [finalize, hk] <;> dsimp only <;> split
  · exact iff_of_true rfl ‹_›
  · exact iff_of_false (f.numeric.decode_ne_null _) ‹_›
  · exact iff_of_true rfl ‹_›
  · exact iff_of_false nofun ‹_›

/-! ## Extrema -/

/-- No word improves on itself. -/
theorem improves_self {f : AggregateFunction} (hk : f.IsExtremum) (a : UInt64) :
    f.improves a a = false := by
  rcases hk with hk | hk
  · simp only [improves_min hk, Int.lt_irrefl, decide_false]
  · simp only [improves_max hk, Int.lt_irrefl, decide_false]

theorem improves_trans {f : AggregateFunction} (hk : f.IsExtremum) {a b c : UInt64}
    (hab : f.improves a b = false) (hbc : f.improves b c = false) : f.improves a c = false := by
  rcases hk with hk | hk
  · simp only [improves_min hk, decide_eq_false_iff_not] at hab hbc ⊢
    omega
  · simp only [improves_max hk, decide_eq_false_iff_not] at hab hbc ⊢
    omega

/-- Neither of two words improves on the better one. -/
theorem improves_best {f : AggregateFunction} (hk : f.IsExtremum) (a b : UInt64) :
    f.improves a (f.best a b) = false ∧ f.improves b (f.best a b) = false := by
  rcases hk with hk | hk
  · simp only [best, improves_min hk, decide_eq_true_eq, decide_eq_false_iff_not]
    split <;> omega
  · simp only [best, improves_max hk, decide_eq_true_eq, decide_eq_false_iff_not]
    split <;> omega

section

variable [FloatAddition] {f : AggregateFunction}

/-- A tally that holds the best of some words: it is set exactly if there are any, and then its
    value is one of them on which none improves. -/
structure HoldsBest (f : AggregateFunction) (words : List UInt64) (tally : Tally) : Prop where
  isSet : tally.isSet = !words.isEmpty
  best : words ≠ [] →
    tally.value ∈ words ∧ ∀ w ∈ words, f.improves w tally.value = false

omit [FloatAddition] in
theorem HoldsBest.perm {ws ws' : List UInt64} {tally : Tally} (h : f.HoldsBest ws tally)
    (hperm : ws.Perm ws') : f.HoldsBest ws' tally := by
  refine ⟨?_, fun hne => ?_⟩
  · rw [h.isSet, hperm.isEmpty_eq]
  · obtain ⟨hmem, hbest⟩ := h.best fun hnil => hne (hnil ▸ hperm).nil_eq.symm
    exact ⟨hperm.mem_iff.mp hmem, fun w hw => hbest w (hperm.mem_iff.mpr hw)⟩

/-- **A contribution** to the best of some words makes it the best of one more. -/
theorem HoldsBest.contribute (hk : f.IsExtremum) {ws : List UInt64} {tally : Tally}
    (h : f.HoldsBest ws tally) (w k : UInt64) :
    f.HoldsBest (ws ++ [w]) (f.contribute tally w k) := by
  rw [contribute_of_extremum hk]
  refine ⟨by cases ws <;> rfl, fun _ => ?_⟩
  -- the first word is kept as it is, a later one only if it improves on what is kept
  by_cases hws : ws = []
  · subst hws
    rw [h.isSet]
    show w ∈ [w] ∧ ∀ w' ∈ [w], f.improves w' w = false
    refine ⟨List.mem_singleton_self w, fun w' hw' => ?_⟩
    rw [List.mem_singleton.mp hw']
    exact improves_self hk w
  · obtain ⟨hmem, hbest⟩ := h.best hws
    rw [h.isSet, List.isEmpty_eq_false_iff.mpr hws, Bool.not_false, if_pos rfl]
    obtain ⟨hold, hnew⟩ := improves_best hk tally.value w
    constructor
    · show f.best _ w ∈ ws ++ [w]
      rw [AggregateFunction.best]
      split
      · exact List.mem_append_right ws (List.mem_singleton_self w)
      · exact List.mem_append_left [w] hmem
    · intro w' hw'
      rcases List.mem_append.mp hw' with hw' | hw'
      · exact improves_trans hk (hbest w' hw') hold
      · rw [List.mem_singleton.mp hw']
        exact hnew

/-- A fold holds the best of its inputs. -/
theorem holdsBest_foldInputs (hk : f.IsExtremum) (xs : List UInt64) :
    f.HoldsBest xs (f.foldInputs xs) := by
  induction xs using List.reverseRecOn with
  | nil => exact ⟨rfl, fun hne => absurd rfl hne⟩
  | append_singleton xs x ih =>
    rw [foldInputs_concat]
    exact ih.contribute hk x 1

/-- **The word that an extremum keeps** is an input on which no input improves. -/
theorem exists_best_of_extremum (hk : f.IsExtremum) {xs : List UInt64} (hne : xs ≠ []) :
    (f.foldInputs xs).value ∈ xs ∧ ∀ x ∈ xs, f.improves x (f.foldInputs xs).value = false :=
  (holdsBest_foldInputs hk xs).best hne

/-! ## Sums -/

/-- **Integers are summed modulo 2^64.** -/
theorem value_foldInputs_of_int64 (hk : f.IsSum) (hn : f.numeric = .int64) (xs : List UInt64) :
    (f.foldInputs xs).value.toInt64 = Int64.ofInt (xs.map fun w => w.toInt64.toInt).sum := by
  induction xs using List.reverseRecOn with
  | nil => rfl
  | append_singleton xs x ih =>
    have hstep : (f.foldInputs (xs ++ [x])).value = (f.foldInputs xs).value + x := by
      rw [foldInputs_concat, update, contribute_of_sum hk, hn]
      rfl
    rw [hstep, UInt64.toInt64_add, ih, List.map_append, List.sum_append, Int64.ofInt_add,
      List.map_singleton, List.sum_singleton, Int64.ofInt_toInt]

/-! ## All functions -/

/-- A fold of some inputs, if their number is a word, has a count. -/
theorem count_foldInputs_eq_zero_iff {xs : List UInt64} (hlen : xs.length < UInt64.size) :
    (f.foldInputs xs).count = 0 ↔ xs = [] := by
  rw [count_foldInputs]
  constructor
  · intro h
    exact List.eq_nil_of_length_eq_zero (eq_zero_of_ofNat_eq_zero hlen h)
  · rintro rfl
    rfl

/-- An extremum of some inputs is the value of the word that the fold keeps. -/
theorem finalize_foldInputs_of_extremum (hk : f.IsExtremum) {xs : List UInt64} (hne : xs ≠ []) :
    f.finalize (f.foldInputs xs) = f.numeric.decode (f.foldInputs xs).value := by
  rw [finalize_of_extremum hk, (reached_foldInputs f xs).isSet_eq hk, List.isEmpty_eq_false_iff.mpr hne]
  rfl

/-- **The value of a fold describes its inputs.** -/
theorem describes_foldInputs (f : AggregateFunction) {xs : List UInt64}
    (hlen : f.IsSum → xs.length < UInt64.size) : f.Describes xs (f.finalize (f.foldInputs xs)) := by
  constructor
  · intro hk
    rw [finalize_of_count hk, count_foldInputs, UInt64.toInt64_ofNat']
  · intro hk hn hne
    have hcount : (f.foldInputs xs).count ≠ 0 := fun hzero =>
      hne ((count_foldInputs_eq_zero_iff (hlen (Or.inl hk))).mp hzero)
    rw [finalize_of_sum hk, if_neg hcount, hn]
    exact congrArg Scalar.int (value_foldInputs_of_int64 (Or.inl hk) hn xs)
  · intro hk hne
    obtain ⟨hmem, hbest⟩ := exists_best_of_extremum (Or.inl hk) hne
    rw [finalize_foldInputs_of_extremum (Or.inl hk) hne]
    refine ⟨_, hmem, rfl, fun w hw => Numeric.isLE_compare_decode.mpr ?_⟩
    have hw := hbest w hw
    rw [improves_min hk, decide_eq_false_iff_not] at hw
    omega
  · intro hk hne
    obtain ⟨hmem, hbest⟩ := exists_best_of_extremum (Or.inr hk) hne
    rw [finalize_foldInputs_of_extremum (Or.inr hk) hne]
    refine ⟨_, hmem, rfl, fun w hw => Numeric.isLE_compare_decode.mpr ?_⟩
    have hw := hbest w hw
    rw [improves_max hk, decide_eq_false_iff_not] at hw
    omega
  · intro hcount
    rcases f.kind_cases with hk | hk | hk
    · exact absurd hk hcount
    · rw [finalize_eq_null_iff_of_sum hk]
      exact count_foldInputs_eq_zero_iff (hlen hk)
    · constructor
      · intro hnull
        by_contra hne
        rw [finalize_foldInputs_of_extremum hk hne] at hnull
        exact f.numeric.decode_ne_null _ hnull
      · rintro rfl
        exact finalize_of_extremum hk _

end

end AggregateFunction
end Cohort
