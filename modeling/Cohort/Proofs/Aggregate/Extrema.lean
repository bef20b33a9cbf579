import Cohort.Proofs.Aggregate.Values
/-
  A minimum or maximum SELECTS one of its inputs, by one total order of all 64-bit words.

  1. **The order of words.**  `Numeric.less` compares by an integer that tells every two words apart,
     so it is a strict total order (`Numeric.isStrictTotalOrder_less`), and it is the order in which
     the values of the words are sorted.  For integers that is the signed order, and for floats the
     IEEE total order (`Binary64.Precedes`), which looks at the sign first and then counts patterns
     up or down.

  2. **What is selected.**  A fold keeps an input on which no input improves.  Since the order is
     total there is only one such word (`eq_of_not_improves`), whatever order the inputs come in.

  3. **What is not.**  The word that a tally holds before it is set is never looked at
     (`foldl_update_of_unset`), so the zero of the empty tally is no candidate, even where zero is
     less than all inputs.
-/

namespace Cohort

namespace Binary64

/-- The IEEE total order of bit patterns: negative sign before positive, patterns of positive sign by
    growing magnitude and patterns of negative sign by falling magnitude. -/
inductive Precedes (x y : Binary64) : Prop
  | signs : x.isNegative = true → y.isNegative = false → Precedes x y
  | negative : x.isNegative = true → y.isNegative = true → y.magnitude < x.magnitude → Precedes x y
  | positive : x.isNegative = false → y.isNegative = false → x.magnitude < y.magnitude → Precedes x y

/-- The rank of a pattern by its sign and magnitude. -/
theorem rank_eq (x : Binary64) :
    x.rank = if x.isNegative then -1 - (x.magnitude : Int) else x.magnitude := by
  have hlt := x.bits.toNat_lt
  rw [rank, isNegative, magnitude, signPlace]
  by_cases hsign : x.bits.toNat < 9223372036854775808
  · rw [if_pos hsign, decide_eq_false (Nat.not_le.mpr hsign), Nat.mod_eq_of_lt hsign]
    rfl
  · rw [if_neg hsign, decide_eq_true (Nat.not_lt.mp hsign), if_pos rfl]
    omega

/-- **Ranks grow along the IEEE total order.** -/
theorem rank_lt_iff {x y : Binary64} : x.rank < y.rank ↔ x.Precedes y := by
  rw [rank_eq, rank_eq]
  constructor
  · intro h
    cases hx : x.isNegative <;> cases hy : y.isNegative <;>
      simp only [hx, hy, Bool.false_eq_true, if_true, if_false] at h
    · exact .positive hx hy (Int.ofNat_lt.mp h)
    · omega
    · exact .signs hx hy
    · exact .negative hx hy (by omega)
  · intro h
    cases h with
    | signs hx hy =>
      rw [if_pos hx, if_neg (Bool.eq_false_iff.mp hy)]
      omega
    | negative hx hy hless =>
      rw [if_pos hx, if_pos hy]
      omega
    | positive hx hy hless =>
      rw [if_neg (Bool.eq_false_iff.mp hx), if_neg (Bool.eq_false_iff.mp hy)]
      exact Int.ofNat_lt.mpr hless

end Binary64

namespace Numeric

theorem less_iff {n : Numeric} {a b : UInt64} : n.less a b = true ↔ n.rank a < n.rank b :=
  decide_eq_true_iff

/-- **The words of a domain are in a strict total order.** -/
theorem isStrictTotalOrder_less (n : Numeric) :
    IsStrictTotalOrder UInt64 fun a b => n.less a b = true where
  irrefl a h := Int.lt_irrefl _ (less_iff.mp h)
  trans a b c hab hbc := less_iff.mpr (Int.lt_trans (less_iff.mp hab) (less_iff.mp hbc))
  trichotomous a b hab hba := by
    rw [less_iff] at hab hba
    exact rank_injective (Int.le_antisymm (Int.not_lt.mp hba) (Int.not_lt.mp hab))

/-- Words are in the order of their values. -/
theorem less_iff_compare_decode {n : Numeric} {a b : UInt64} :
    n.less a b = true ↔ Scalar.compare (n.decode a) (n.decode b) = .lt := by
  rw [less_iff, compare_decode, Std.compare_eq_lt]

theorem less_int64_iff {a b : UInt64} : less .int64 a b = true ↔ a.toInt64 < b.toInt64 := by
  rw [less_iff, Int64.lt_iff_toInt_lt]
  rfl

theorem less_float64_iff {a b : UInt64} :
    less .float64 a b = true ↔ (Binary64.mk a).Precedes ⟨b⟩ := by
  rw [less_iff, ← Binary64.rank_lt_iff]
  rfl

/-- The order by which a domain selects: strict and total on all words, and the order in which values
    are sorted. -/
structure OrdersWords (n : Numeric) : Prop where
  strict : IsStrictTotalOrder UInt64 fun a b => n.less a b = true
  sorted : ∀ a b, n.less a b = true ↔ Scalar.compare (n.decode a) (n.decode b) = .lt
  signed : n = .int64 → ∀ a b, n.less a b = true ↔ a.toInt64 < b.toInt64
  ieee : n = .float64 → ∀ a b, n.less a b = true ↔ (Binary64.mk a).Precedes ⟨b⟩

theorem ordersWords (n : Numeric) : n.OrdersWords := by
  refine ⟨isStrictTotalOrder_less n, fun a b => less_iff_compare_decode, ?_, ?_⟩
  · rintro rfl a b
    exact less_int64_iff
  · rintro rfl a b
    exact less_float64_iff

end Numeric

namespace AggregateFunction

/-- Two words of which neither improves on the other are one word. -/
theorem eq_of_not_improves {f : AggregateFunction} (hk : f.IsExtremum) {a b : UInt64}
    (hab : f.improves a b = false) (hba : f.improves b a = false) : a = b := by
  apply Numeric.rank_injective (n := f.numeric)
  rcases hk with hk | hk
  · rw [improves_min hk, decide_eq_false_iff_not] at hab hba
    omega
  · rw [improves_max hk, decide_eq_false_iff_not] at hab hba
    omega

section

variable [FloatAddition] {f : AggregateFunction}

/-- **The word of a tally that is not set is never looked at.** -/
theorem foldl_update_of_unset (hk : f.IsExtremum) {xs : List UInt64} (hne : xs ≠ []) (v : UInt64) :
    xs.foldl f.update { value := v, count := 0, isSet := false } = f.foldInputs xs := by
  cases xs with
  | nil => exact absurd rfl hne
  | cons x xs =>
    -- after the first input nothing is left of the word the tally began with
    have hfirst : f.update { value := v, count := 0, isSet := false } x = f.update .empty x := by
      rw [update, update, contribute_of_extremum hk, contribute_of_extremum hk]
      rfl
    rw [foldInputs, List.foldl_cons, List.foldl_cons, hfirst]

/-- A tally that has selected one of some inputs. -/
structure Selects (f : AggregateFunction) (xs : List UInt64) (t : Tally) : Prop where
  isSet : t.isSet = true
  count : t.count.toNat = xs.length
  mem : t.value ∈ xs
  /-- No other input improves on it. -/
  best : ∀ x ∈ xs, f.improves x t.value = false
  /-- It is the only such input. -/
  only : ∀ w ∈ xs, (∀ x ∈ xs, f.improves x w = false) → w = t.value
  /-- A minimum is less than all other inputs. -/
  least : f.kind = .min → ∀ x ∈ xs, x = t.value ∨ f.numeric.less t.value x = true
  /-- A maximum is greater than all other inputs. -/
  greatest : f.kind = .max → ∀ x ∈ xs, x = t.value ∨ f.numeric.less x t.value = true

theorem selects_foldInputs (hk : f.IsExtremum) {xs : List UInt64} (hne : xs ≠ [])
    (hlen : xs.length < UInt64.size) : f.Selects xs (f.foldInputs xs) := by
  obtain ⟨hmem, hbest⟩ := exists_best_of_extremum hk hne
  refine ⟨?_, ?_, hmem, hbest, fun w hw hleast => ?_, fun hmin x hx => ?_, fun hmax x hx => ?_⟩
  · rw [(holdsBest_foldInputs hk xs).isSet, List.isEmpty_eq_false_iff.mpr hne, Bool.not_false]
  · rw [count_foldInputs, UInt64.toNat_ofNat_of_lt' hlen]
  · exact eq_of_not_improves hk (hbest w hw) (hleast _ hmem)
  · have hx := hbest x hx
    rw [improves_min hmin, decide_eq_false_iff_not, Int.not_lt] at hx
    rcases Int.lt_or_eq_of_le hx with hless | hsame
    · exact .inr (Numeric.less_iff.mpr hless)
    · exact .inl (Numeric.rank_injective hsame).symm
  · have hx := hbest x hx
    rw [improves_max hmax, decide_eq_false_iff_not, Int.not_lt] at hx
    rcases Int.lt_or_eq_of_le hx with hless | hsame
    · exact .inr (Numeric.less_iff.mpr hless)
    · exact .inl (Numeric.rank_injective hsame)

/-- **A minimum or maximum selects the extremum of one total order.**

    The words of both domains are in a strict total order, which is that of their values.  Of some
    inputs, if their number is a word, a minimum or maximum selects the extremum by this order; the
    word it began with does not matter, and neither does the order of the inputs. -/
theorem extremum_selects :
    (∀ n : Numeric, n.OrdersWords) ∧
    ∀ f : AggregateFunction, f.IsExtremum → ∀ xs : List UInt64, xs ≠ [] →
      xs.length < UInt64.size →
      f.Selects xs (f.foldInputs xs) ∧
      (∀ v, xs.foldl f.update { value := v, count := 0, isSet := false } = f.foldInputs xs) ∧
      ∀ ys, ys.Perm xs → f.foldInputs ys = f.foldInputs xs := by
  refine ⟨Numeric.ordersWords, fun f hk xs hne hlen =>
    ⟨selects_foldInputs hk hne hlen, foldl_update_of_unset hk hne, fun ys hperm => ?_⟩⟩
  exact foldInputs_perm (fun hadds => absurd hadds.1 hk.not_isSum) hperm

end

/-- The greatest of three floats of negative sign, a NaN, zero and minus one, is the zero. -/
theorem extremum_selects_sample :
    let f : AggregateFunction := ⟨.max, .float64⟩
    let xs : List UInt64 := [0xFFF8000000000000, 0x8000000000000000, 0xBFF0000000000000]
    f.Selects xs (f.foldInputs xs) ∧ (f.foldInputs xs).value = 0x8000000000000000 :=
  ⟨(extremum_selects.2 ⟨.max, .float64⟩ (.inr rfl) _ (by decide) (by decide)).1, by decide⟩

end AggregateFunction
end Cohort
