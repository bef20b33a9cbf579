import Cohort.Proofs.Aggregate.Combination
/-
  PEERS: two tallies of the same inputs, which came about alike but for empty tallies.

  Where one layout of states moves a tally, another one merges it into an empty tally.  So the two
  sides go through the same inputs in the same order, and differ in additions of a float to the zero
  of an empty tally at most.  IEEE addition of zero changes one number only, the negative zero, and
  no sum that starts from the zero of an empty tally ever comes to that.

  1. **Floats.**  `FloatAddition.IsIEEE` says what is asked of the addition of floats.

  2. **Steps.**  Updates and merges keep tallies peers (`Peers.update`, `Peers.merge`), and so does
     merging one of the two into an empty tally (`Peers.rebuilt`) if its count has not wrapped.

  3. **Agreement.**  Peers are the same tally, but for the payload of a NaN (`Peers.agree`).
-/

namespace Cohort

/-! ## Floats -/

/-- The word of the negative zero. -/
def negativeZero : UInt64 := 0x8000000000000000

/-- Whether a word is that of a NaN. -/
def IsNaN (w : UInt64) : Prop := (Binary64.mk w).isNaN = true

instance (w : UInt64) : Decidable (IsNaN w) := inferInstanceAs (Decidable (_ = true))

/-- Words of the same float, where all NaNs are the same. -/
def SameFloat (a b : UInt64) : Prop := a = b ∨ (IsNaN a ∧ IsNaN b)

theorem SameFloat.refl (a : UInt64) : SameFloat a a := .inl rfl

theorem SameFloat.symm {a b : UInt64} (h : SameFloat a b) : SameFloat b a := by
  rcases h with h | ⟨ha, hb⟩
  · exact .inl h.symm
  · exact .inr ⟨hb, ha⟩

theorem SameFloat.trans {a b c : UInt64} (h : SameFloat a b) (h' : SameFloat b c) :
    SameFloat a c := by
  rcases h with rfl | ⟨ha, hb⟩
  · exact h'
  · rcases h' with rfl | ⟨_, hc⟩
    · exact .inr ⟨ha, hb⟩
    · exact .inr ⟨ha, hc⟩

variable [FloatAddition]

/-- What IEEE addition makes of zeros and NaNs. -/
structure FloatAddition.IsIEEE : Prop where
  /-- Adding a number to zero gives the number, unless it is the negative zero. -/
  zero_add : ∀ v, v ≠ negativeZero → SameFloat (add 0 v) v
  /-- Only two negative zeros add up to the negative zero. -/
  eq_negativeZero : ∀ a b, add a b = negativeZero → a = negativeZero ∧ b = negativeZero
  /-- All NaNs are the same to it. -/
  congr : ∀ a a' b b', SameFloat a a' → SameFloat b b' → SameFloat (add a b) (add a' b')

namespace AggregateFunction

/-! ## Peers -/

/-- Two tallies that were reached from the same `k` inputs, and are the same or, where floats are
    added, hold the same sum, which is not the negative zero. -/
structure Peers (f : AggregateFunction) (k : Nat) (x y : Tally) : Prop where
  inputs : ∃ xs, xs.length = k ∧ f.Reached xs x ∧ f.Reached xs y
  same : ¬f.AddsFloats → x = y
  sums : f.AddsFloats → SameFloat x.value y.value ∧ x.value ≠ negativeZero ∧ y.value ≠ negativeZero

/-- Two tallies that are the same, or two sums that are NaN and otherwise the same. -/
def Agree (f : AggregateFunction) (x y : Tally) : Prop :=
  x = y ∨ (f.AddsFloats ∧ IsNaN x.value ∧ IsNaN y.value ∧ x.count = y.count ∧ x.isSet = y.isSet)

/-- What a float adds to a sum. -/
theorem value_contribute_of_addsFloats {f : AggregateFunction} (hf : f.AddsFloats) (t : Tally)
    (w k : UInt64) : (f.contribute t w k).value = FloatAddition.add t.value w := by
  rw [contribute_of_sum hf.1, hf.2]
  rfl

namespace Peers

variable {f : AggregateFunction} {k l : Nat} {x y u v : Tally}

theorem empty (f : AggregateFunction) : f.Peers 0 .empty .empty :=
  ⟨⟨[], rfl, .empty, .empty⟩, fun _ => rfl, fun _ => ⟨.refl 0, by decide, by decide⟩⟩

theorem symm (h : f.Peers k x y) : f.Peers k y x := by
  obtain ⟨⟨xs, hlength, hx, hy⟩, hsame, hsums⟩ := h
  refine ⟨⟨xs, hlength, hy, hx⟩, fun hf => (hsame hf).symm, fun hf => ?_⟩
  obtain ⟨hvalue, hne, hne'⟩ := hsums hf
  exact ⟨hvalue.symm, hne', hne⟩

theorem count_eq (h : f.Peers k x y) : x.count = UInt64.ofNat k ∧ y.count = UInt64.ofNat k := by
  obtain ⟨xs, rfl, hx, hy⟩ := h.inputs
  exact ⟨hx.count_eq, hy.count_eq⟩

/-- The sums of peers after each has taken in a float, the two floats being the same. -/
theorem sums_contribute (h : f.Peers k x y) (hf : f.AddsFloats) (hieee : FloatAddition.IsIEEE)
    {w w' : UInt64} (hw : SameFloat w w') (c c' : UInt64) :
    SameFloat (f.contribute x w c).value (f.contribute y w' c').value ∧
      (f.contribute x w c).value ≠ negativeZero ∧ (f.contribute y w' c').value ≠ negativeZero := by
  obtain ⟨hvalue, hne, hne'⟩ := h.sums hf
  rw [value_contribute_of_addsFloats hf, value_contribute_of_addsFloats hf]
  exact ⟨hieee.congr _ _ _ _ hvalue hw, fun h => hne (hieee.eq_negativeZero _ _ h).1,
    fun h => hne' (hieee.eq_negativeZero _ _ h).1⟩

/-! ## Steps -/

variable (hieee : f.AddsFloats → FloatAddition.IsIEEE)

include hieee

/-- **The same input** on both sides. -/
theorem update (h : f.Peers k x y) (w : UInt64) : f.Peers (k + 1) (f.update x w) (f.update y w) := by
  refine ⟨?_, fun hf => by rw [h.same hf], fun hf => ?_⟩
  · obtain ⟨xs, rfl, hx, hy⟩ := h.inputs
    exact ⟨xs ++ [w], List.length_append, .update w hx, .update w hy⟩
  · exact h.sums_contribute hf (hieee hf) (.refl w) 1 1

/-- **Peers merged into peers.** -/
theorem merge (h : f.Peers k x y) (h' : f.Peers l u v) :
    f.Peers (k + l) (f.merge x u) (f.merge y v) := by
  obtain ⟨xs, rfl, hx, hy⟩ := h.inputs
  obtain ⟨ys, rfl, hu, hv⟩ := h'.inputs
  refine ⟨⟨xs ++ ys, List.length_append, .merge hx hu, .merge hy hv⟩,
    fun hf => by rw [h.same hf, h'.same hf], fun hf => ?_⟩
  -- both sides have the same count to bring, so both bring it or neither does
  have hcount : u.count = v.count := h'.count_eq.1.trans h'.count_eq.2.symm
  have hignores : f.ignores u = f.ignores v := by
    rcases hf.1 with hk | hk <;> simp only [ignores, hk, hcount]
  cases hv : f.ignores v with
  | true =>
    rw [hv] at hignores
    rw [merge_of_ignores hignores, merge_of_ignores hv]
    exact h.sums hf
  | false =>
    rw [hv] at hignores
    rw [merge_of_not_ignores hignores, merge_of_not_ignores hv]
    exact h.sums_contribute hf (hieee hf) (h'.sums hf).1 _ _

/-- **Merged into an empty tally on one side**, and left as it is on the other. -/
theorem rebuilt (h : f.Peers k x y) (hcount : f.IsSum → UInt64.ofNat k = 0 → k = 0) :
    f.Peers k x (f.merge .empty y) := by
  obtain ⟨xs, rfl, hx, hy⟩ := h.inputs
  refine ⟨⟨xs, rfl, hx, .merge .empty hy⟩, fun hf => ?_, fun hf => ?_⟩
  · rw [hy.empty_merge hf hcount]
    exact h.same hf
  · obtain ⟨hvalue, hne, hne'⟩ := h.sums hf
    cases hignores : f.ignores y with
    | true =>
      obtain rfl : xs = [] := hy.inputs_of_ignores hcount hignores
      rw [merge_of_ignores hignores, hx.eq_empty]
      exact (empty f).sums hf
    | false =>
      rw [merge_of_not_ignores hignores, value_contribute_of_addsFloats hf]
      exact ⟨hvalue.trans ((hieee hf).zero_add _ hne').symm, hne,
        fun hzero => hne' ((hieee hf).eq_negativeZero _ _ hzero).2⟩

omit hieee

/-! ## Agreement -/

/-- **Peers agree.** -/
theorem agree (h : f.Peers k x y) : f.Agree x y := by
  by_cases hf : f.AddsFloats
  · obtain ⟨xs, rfl, hx, hy⟩ := h.inputs
    have hcount : x.count = y.count := h.count_eq.1.trans h.count_eq.2.symm
    have hnot : ¬f.IsExtremum := fun hk => hk.not_isSum hf.1
    have hset : x.isSet = y.isSet :=
      (hx.isSet_eq_false hnot).trans (hy.isSet_eq_false hnot).symm
    rcases (h.sums hf).1 with hvalue | ⟨hnan, hnan'⟩
    · left
      obtain ⟨value, count, isSet⟩ := x
      cases hvalue
      cases hcount
      cases hset
      rfl
    · exact Or.inr ⟨hf, hnan, hnan', hcount, hset⟩
  · exact Or.inl (h.same hf)

end Peers
end AggregateFunction
end Cohort
