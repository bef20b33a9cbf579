import Mathlib.Data.List.Induction
import Cohort.Aggregate.Basic
/-
  Tallies COMBINE: folding a list of inputs in pieces and merging the pieces gives the tally of the
  whole list.

  1. **Order.**  An update brings in one word and one more input, and two updates may change places
     (`contribute_right_comm`): sums because addition is commutative and associative, extrema
     because `best` is, counts because they ignore the word.  Hence `foldInputs` depends on the
     inputs up to a permutation (`foldInputs_perm`).

  2. **Any history.**  `Reached` says that a tally came from a list by updates and merges, in any
     mixture.  Its count is the length of the list, whatever addition does (`Reached.count_eq`).
     A merge SKIPS a tally that has nothing to bring in, and skips its count with it: harmless
     because such a tally has no inputs (`Reached.inputs_of_ignores`), which for a sum holds unless
     the count has wrapped to zero.

  3. **Pieces.**  Merging what `ys` gathered is folding `ys` (`merge_foldInputs`), so every tally
     that was reached from a list is the fold of the list (`Reached.eq_foldInputs`).  `Gathers` is
     the case of parts that are folded first and then merged, in any tree.

  Float addition is a parameter, so all of this asks for its laws, but only of functions that add
  floats: `IsOrderFree`.
-/

namespace Cohort

/-- The laws under which a sum of floats does not depend on how its inputs are put together. -/
structure FloatAddition.IsCommMonoid [FloatAddition] : Prop where
  assoc : ∀ a b c, add (add a b) c = add a (add b c)
  comm : ∀ a b, add a b = add b a
  zero_add : ∀ a, add 0 a = a

namespace AggregateFunction

/-- Whether a function is a sum or an average. -/
def IsSum (f : AggregateFunction) : Prop := f.kind = .sum ∨ f.kind = .avg

/-- Whether a function is a minimum or a maximum. -/
def IsExtremum (f : AggregateFunction) : Prop := f.kind = .min ∨ f.kind = .max

/-- Whether a function adds floats, the one operation without laws of its own. -/
def AddsFloats (f : AggregateFunction) : Prop := f.IsSum ∧ f.numeric = .float64

/-- Whether the tallies of a function do not depend on the order of their inputs: always, unless it
    adds floats, and then if float addition has the laws for it. -/
def IsOrderFree [FloatAddition] (f : AggregateFunction) : Prop :=
  f.AddsFloats → FloatAddition.IsCommMonoid

/-- Every function counts, sums or keeps an extremum. -/
theorem kind_cases (f : AggregateFunction) : f.kind = .count ∨ f.IsSum ∨ f.IsExtremum := by
  unfold IsSum IsExtremum
  cases f.kind <;> simp

theorem IsExtremum.not_isSum {f : AggregateFunction} (hk : f.IsExtremum) : ¬f.IsSum := by
  rcases hk with hk | hk <;> rw [IsSum, hk] <;> simp

/-! ## Sums -/

theorem word_add_right_comm (a b c : UInt64) : a + b + c = a + c + b := by
  rw [UInt64.add_assoc, UInt64.add_comm b c, ← UInt64.add_assoc]

section Sums

variable [FloatAddition] {f : AggregateFunction}

/-- Two words that are added may change places ... -/
theorem IsOrderFree.add_right_comm (hf : f.IsOrderFree) (hk : f.IsSum) (a b c : UInt64) :
    f.numeric.add (f.numeric.add a b) c = f.numeric.add (f.numeric.add a c) b := by
  cases hn : f.numeric with
  | int64 => exact word_add_right_comm a b c
  | float64 =>
    have laws := hf ⟨hk, hn⟩
    show FloatAddition.add (FloatAddition.add a b) c = FloatAddition.add (FloatAddition.add a c) b
    rw [laws.assoc, laws.comm b c, ← laws.assoc]

/-- ... or be added to one another first ... -/
theorem IsOrderFree.add_assoc (hf : f.IsOrderFree) (hk : f.IsSum) (a b c : UInt64) :
    f.numeric.add (f.numeric.add a b) c = f.numeric.add a (f.numeric.add b c) := by
  cases hn : f.numeric with
  | int64 => exact UInt64.add_assoc a b c
  | float64 => exact (hf ⟨hk, hn⟩).assoc a b c

/-- ... and the zero of an empty tally changes nothing. -/
theorem IsOrderFree.add_zero (hf : f.IsOrderFree) (hk : f.IsSum) (a : UInt64) :
    f.numeric.add a 0 = a := by
  cases hn : f.numeric with
  | int64 => exact UInt64.add_zero a
  | float64 =>
    have laws := hf ⟨hk, hn⟩
    show FloatAddition.add a 0 = a
    rw [laws.comm, laws.zero_add]

end Sums

/-! ## Extrema -/

/-- The better of two words, the first one unless the second improves on it. -/
def best (f : AggregateFunction) (current candidate : UInt64) : UInt64 :=
  if f.improves candidate current then candidate else current

/-- A minimum improves to a word of lower rank ... -/
theorem improves_min {f : AggregateFunction} (hk : f.kind = .min) (a b : UInt64) :
    f.improves a b = decide (f.numeric.rank a < f.numeric.rank b) := by
  rw [improves, hk]; rfl

/-- ... and a maximum to one of higher rank. -/
theorem improves_max {f : AggregateFunction} (hk : f.kind = .max) (a b : UInt64) :
    f.improves a b = decide (f.numeric.rank b < f.numeric.rank a) := by
  rw [improves, hk]; rfl

/-- Of two words that do not improve on one another there is only one. -/
theorem best_comm {f : AggregateFunction} (hk : f.IsExtremum) (a b : UInt64) :
    f.best a b = f.best b a := by
  -- a tie is no choice: words of the same rank are the same word, NaNs and zeros included
  have same : f.numeric.rank a = f.numeric.rank b → a = b := Numeric.rank_injective
  rcases hk with hk | hk
  · simp only [best, improves_min hk, decide_eq_true_eq]
    split <;> split
    · omega
    · rfl
    · rfl
    · exact same (by omega)
  · simp only [best, improves_max hk, decide_eq_true_eq]
    split <;> split
    · omega
    · rfl
    · rfl
    · exact same (by omega)

/-- Of three words the best one is the best, whichever two are compared first. -/
theorem best_assoc {f : AggregateFunction} (hk : f.IsExtremum) (a b c : UInt64) :
    f.best (f.best a b) c = f.best a (f.best b c) := by
  rcases hk with hk | hk
  · simp only [best, improves_min hk, decide_eq_true_eq]
    by_cases hab : f.numeric.rank b < f.numeric.rank a <;>
      by_cases hbc : f.numeric.rank c < f.numeric.rank b <;>
        by_cases hac : f.numeric.rank c < f.numeric.rank a <;>
          simp only [hab, hbc, hac, if_true, if_false] <;> omega
  · simp only [best, improves_max hk, decide_eq_true_eq]
    by_cases hab : f.numeric.rank a < f.numeric.rank b <;>
      by_cases hbc : f.numeric.rank b < f.numeric.rank c <;>
        by_cases hac : f.numeric.rank a < f.numeric.rank c <;>
          simp only [hab, hbc, hac, if_true, if_false] <;> omega

theorem best_right_comm {f : AggregateFunction} (hk : f.IsExtremum) (a b c : UInt64) :
    f.best (f.best a b) c = f.best (f.best a c) b := by
  rw [best_assoc hk, best_comm hk b c, ← best_assoc hk]

/-! ## One contribution, by kind -/

/-- A number that fits into a word is zero if it is zero as a word. -/
theorem eq_zero_of_ofNat_eq_zero {k : Nat} (hk : k < UInt64.size) (h : UInt64.ofNat k = 0) :
    k = 0 := by
  rw [← UInt64.toNat_ofNat_of_lt' hk, h]
  rfl

variable [FloatAddition]

/-- A contribution to a count: the word is not looked at. -/
theorem contribute_of_count {f : AggregateFunction} (hk : f.kind = .count) (t : Tally)
    (w k : UInt64) : f.contribute t w k = { t with count := t.count + k } := by
  simp only [contribute, absorb, hk]

/-- A contribution to a sum: the word is added, whatever it stands for. -/
theorem contribute_of_sum {f : AggregateFunction} (hk : f.IsSum) (t : Tally) (w k : UInt64) :
    f.contribute t w k = { t with value := f.numeric.add t.value w, count := t.count + k } := by
  rcases hk with hk | hk <;> simp only [contribute, absorb, hk]

/-- A contribution to an extremum: the first word, or the better one. -/
theorem contribute_of_extremum {f : AggregateFunction} (hk : f.IsExtremum) (t : Tally)
    (w k : UInt64) :
    f.contribute t w k = ⟨if t.isSet then f.best t.value w else w, t.count + k, true⟩ := by
  obtain ⟨value, count, isSet⟩ := t
  have habsorb : f.absorb ⟨value, count, isSet⟩ w =
      if !isSet || f.improves w value then ⟨w, count, true⟩ else ⟨value, count, isSet⟩ := by
    rcases hk with hk | hk <;> simp only [absorb, hk]
  rw [contribute, habsorb]
  cases isSet with
  | false => rfl
  | true =>
    simp only [best, Bool.not_true, Bool.false_or, if_true]
    by_cases hw : f.improves w value = true
    · rw [if_pos hw, if_pos hw]
    · rw [if_neg hw, if_neg hw]

/-- Every contribution adds its weight to the count, and nothing else touches the count. -/
theorem count_contribute (f : AggregateFunction) (t : Tally) (w k : UInt64) :
    (f.contribute t w k).count = t.count + k := by
  rcases f.kind_cases with hk | hk | hk
  · rw [contribute_of_count hk]
  · rw [contribute_of_sum hk]
  · rw [contribute_of_extremum hk]

/-- **Contributions may change places.** -/
theorem contribute_right_comm {f : AggregateFunction} (hf : f.IsOrderFree) (t : Tally)
    (x k y l : UInt64) :
    f.contribute (f.contribute t x k) y l = f.contribute (f.contribute t y l) x k := by
  have hcount : t.count + k + l = t.count + l + k := word_add_right_comm _ _ _
  rcases f.kind_cases with hk | hk | hk
  · simp only [contribute_of_count hk, hcount]
  · simp only [contribute_of_sum hk, hcount, hf.add_right_comm hk t.value x y]
  · simp only [contribute_of_extremum hk, hcount, if_true]
    cases t.isSet with
    | false => simp only [Bool.false_eq_true, if_false, best_comm hk x y]
    | true => simp only [if_true, best_right_comm hk t.value x y]

/-! ## One merge -/

/-- A merge that is not skipped is a contribution. -/
theorem merge_of_not_ignores {f : AggregateFunction} {u : Tally} (h : f.ignores u = false)
    (t : Tally) : f.merge t u = f.contribute t u.value u.count := by
  rw [merge, h]; rfl

/-- A merge that is skipped changes nothing, not even the count. -/
theorem merge_of_ignores {f : AggregateFunction} {u : Tally} (h : f.ignores u = true)
    (t : Tally) : f.merge t u = t := by
  rw [merge, if_pos h]

/-- Merging an empty tally changes nothing. -/
theorem merge_empty (f : AggregateFunction) (t : Tally) : f.merge t .empty = t := by
  rcases f.kind_cases with hk | hk | hk
  · have hnot : f.ignores .empty = false := by rw [ignores, hk]
    rw [merge_of_not_ignores hnot, contribute_of_count hk]
    show { t with count := t.count + 0 } = t
    rw [UInt64.add_zero]
  · exact merge_of_ignores (by rcases hk with hk | hk <;> rw [ignores, hk] <;> rfl) t
  · exact merge_of_ignores (by rcases hk with hk | hk <;> rw [ignores, hk] <;> rfl) t

/-! ## What has happened to a tally -/

/-- `Reached f xs t`: the tally `t` came from the empty one by updates and merges of other tallies
    that came about like this, and `xs` are the inputs that went into it, in their order. -/
inductive Reached (f : AggregateFunction) : List UInt64 → Tally → Prop
  | empty : Reached f [] .empty
  | update {xs : List UInt64} {t : Tally} (x : UInt64) :
      Reached f xs t → Reached f (xs ++ [x]) (f.update t x)
  | merge {xs ys : List UInt64} {t u : Tally} :
      Reached f xs t → Reached f ys u → Reached f (xs ++ ys) (f.merge t u)

/-- An extremum is set exactly if there was an input. -/
theorem Reached.isSet_eq {f : AggregateFunction} (hk : f.IsExtremum) {xs : List UInt64}
    {t : Tally} (h : f.Reached xs t) : t.isSet = !xs.isEmpty := by
  induction h with
  | empty => rfl
  | @update xs t x _ _ =>
    rw [AggregateFunction.update, contribute_of_extremum hk]
    cases xs <;> rfl
  | @merge xs ys t u _ _ iht ihu =>
    have hignores : f.ignores u = ys.isEmpty := by
      rw [← Bool.not_not (b := ys.isEmpty), ← ihu]
      rcases hk with hk | hk <;> simp only [ignores, hk]
    cases ys with
    | nil => rw [merge_of_ignores hignores, iht, List.append_nil]
    | cons y ys =>
      rw [merge_of_not_ignores hignores, contribute_of_extremum hk]
      cases xs <;> rfl

omit [FloatAddition] in
/-- What is skipped has a count of zero. -/
theorem count_of_ignores {f : AggregateFunction} {ys : List UInt64} {u : Tally}
    (hset : f.IsExtremum → u.isSet = !ys.isEmpty) (hcount : u.count = UInt64.ofNat ys.length)
    (h : f.ignores u = true) : u.count = 0 := by
  rcases f.kind_cases with hk | hk | hk
  · simp [ignores, hk] at h
  · rcases hk with hk | hk <;> simpa [ignores, hk] using h
  · have hunset : u.isSet = false := by
      have hunset' := hk
      rcases hunset' with hk' | hk' <;> simpa [ignores, hk'] using h
    rw [hset hk] at hunset
    have hnil : ys = [] := by simpa using hunset
    rw [hcount, hnil]
    rfl

/-- **The count is the number of inputs**, as a word, for every function and every addition. -/
theorem Reached.count_eq {f : AggregateFunction} {xs : List UInt64} {t : Tally}
    (h : f.Reached xs t) : t.count = UInt64.ofNat xs.length := by
  induction h with
  | empty => rfl
  | @update xs t x _ iht =>
    rw [AggregateFunction.update, count_contribute, iht, List.length_append, UInt64.ofNat_add]
    rfl
  | @merge xs ys t u _ hu iht ihu =>
    have hlength : UInt64.ofNat (xs ++ ys).length = t.count + u.count := by
      rw [iht, ihu, List.length_append, UInt64.ofNat_add]
    rw [hlength]
    cases hs : f.ignores u with
    | false => rw [merge_of_not_ignores hs, count_contribute]
    | true =>
      rw [merge_of_ignores hs, count_of_ignores (fun hk => hu.isSet_eq hk) ihu hs,
        UInt64.add_zero]

/-- Fewer inputs than there are words are counted as they are. -/
theorem Reached.toNat_count {f : AggregateFunction} {xs : List UInt64} {t : Tally}
    (h : f.Reached xs t) (hxs : xs.length < UInt64.size) : t.count.toNat = xs.length := by
  rw [h.count_eq, UInt64.toNat_ofNat_of_lt' hxs]

/-- **No inputs, no tally.** -/
theorem Reached.eq_empty {f : AggregateFunction} {t : Tally} (h : f.Reached [] t) : t = .empty := by
  generalize hxs : ([] : List UInt64) = xs at h
  induction h with
  | empty => rfl
  | update x _ _ => exact absurd hxs.symm (List.append_ne_nil_of_right_ne_nil _ nofun)
  | merge _ _ iht ihu =>
    obtain ⟨hxs, hys⟩ := List.append_eq_nil_iff.mp hxs.symm
    rw [ihu hys.symm, merge_empty, iht hxs.symm]

/-- **What every contribution keeps holds of every tally.** -/
theorem Reached.of_contribute {f : AggregateFunction} {P : Tally → Prop} (hempty : P .empty)
    (hstep : ∀ t w k, P t → P (f.contribute t w k)) {xs : List UInt64} {t : Tally}
    (h : f.Reached xs t) : P t := by
  induction h with
  | empty => exact hempty
  | update x _ ih => exact hstep _ x 1 ih
  | @merge xs ys t u _ _ ih _ =>
    cases hu : f.ignores u with
    | true => rwa [merge_of_ignores hu]
    | false =>
      rw [merge_of_not_ignores hu]
      exact hstep t u.value u.count ih

/-- Only an extremum is ever marked as set. -/
theorem Reached.isSet_eq_false {f : AggregateFunction} (hk : ¬f.IsExtremum) {xs : List UInt64}
    {t : Tally} (h : f.Reached xs t) : t.isSet = false := by
  refine h.of_contribute (P := (·.isSet = false)) rfl fun t w k ht => ?_
  rcases f.kind_cases with hk' | hk' | hk'
  · rwa [contribute_of_count hk']
  · rwa [contribute_of_sum hk']
  · exact absurd hk' hk

/-- A count holds no word. -/
theorem Reached.value_eq_zero {f : AggregateFunction} (hk : f.kind = .count) {xs : List UInt64}
    {t : Tally} (h : f.Reached xs t) : t.value = 0 := by
  refine h.of_contribute (P := (·.value = 0)) rfl fun t w k ht => ?_
  rwa [contribute_of_count hk]

/-- **A merge skips only what has no inputs**, provided that a sum has none if it counts none. -/
theorem Reached.inputs_of_ignores {f : AggregateFunction} {xs : List UInt64} {t : Tally}
    (h : f.Reached xs t) (hcount : f.IsSum → UInt64.ofNat xs.length = 0 → xs.length = 0)
    (hignores : f.ignores t = true) : xs = [] := by
  rcases f.kind_cases with hk | hk | hk
  · rw [ignores, hk] at hignores
    cases hignores
  · have hzero : t.count = 0 := by
      rcases hk with hk | hk <;> simpa only [ignores, hk, beq_iff_eq] using hignores
    rw [h.count_eq] at hzero
    exact List.eq_nil_of_length_eq_zero (hcount hk hzero)
  · have hunset : t.isSet = false := by
      rcases hk with hk | hk <;> simpa only [ignores, hk, Bool.not_eq_true'] using hignores
    rw [h.isSet_eq hk, Bool.not_eq_false'] at hunset
    exact List.isEmpty_iff.mp hunset

/-- **Merged into an empty tally**, a tally stays as it is, unless floats are added. -/
theorem Reached.empty_merge {f : AggregateFunction} {xs : List UInt64} {t : Tally}
    (h : f.Reached xs t) (hf : ¬f.AddsFloats)
    (hcount : f.IsSum → UInt64.ofNat xs.length = 0 → xs.length = 0) : f.merge .empty t = t := by
  have hword : ∀ w : UInt64, (0 : UInt64) + w = w := UInt64.zero_add
  cases hignores : f.ignores t with
  | true =>
    obtain rfl : xs = [] := h.inputs_of_ignores hcount hignores
    rw [merge_of_ignores hignores, h.eq_empty]
  | false =>
    rw [merge_of_not_ignores hignores]
    rcases f.kind_cases with hk | hk | hk
    · have hnot : ¬f.IsExtremum := by simp [IsExtremum, hk]
      have hset := h.isSet_eq_false hnot
      have hvalue := h.value_eq_zero hk
      rw [contribute_of_count hk]
      obtain ⟨value, count, isSet⟩ := t
      cases hset
      cases hvalue
      exact congrArg (Tally.mk 0 · false) (hword count)
    · have hset := h.isSet_eq_false fun hk' => hk'.not_isSum hk
      have hint : f.numeric = .int64 := by
        cases hn : f.numeric with
        | int64 => rfl
        | float64 => exact absurd ⟨hk, hn⟩ hf
      rw [contribute_of_sum hk, hint]
      obtain ⟨value, count, isSet⟩ := t
      cases hset
      exact congrArg₂ (Tally.mk · · false) (hword value) (hword count)
    · have hset : t.isSet = true := by
        rcases hk with hk | hk <;> simpa only [ignores, hk, Bool.not_eq_false'] using hignores
      rw [contribute_of_extremum hk]
      obtain ⟨value, count, isSet⟩ := t
      cases hset
      exact congrArg (Tally.mk value · true) (hword count)

/-! ## Folding a list of inputs -/

/-- A fold goes on from where it has got. -/
theorem foldInputs_append (f : AggregateFunction) (xs ys : List UInt64) :
    f.foldInputs (xs ++ ys) = ys.foldl f.update (f.foldInputs xs) := List.foldl_append

theorem foldInputs_concat (f : AggregateFunction) (xs : List UInt64) (x : UInt64) :
    f.foldInputs (xs ++ [x]) = f.update (f.foldInputs xs) x := foldInputs_append f xs [x]

/-- **The order of the inputs does not matter.** -/
theorem foldInputs_perm {f : AggregateFunction} (hf : f.IsOrderFree) {xs ys : List UInt64}
    (h : xs.Perm ys) : f.foldInputs xs = f.foldInputs ys :=
  h.foldl_eq' (fun x _ y _ t => contribute_right_comm hf t x 1 y 1) Tally.empty

/-- To fold inputs one by one is one way to come by a tally. -/
theorem reached_foldInputs (f : AggregateFunction) (xs : List UInt64) :
    f.Reached xs (f.foldInputs xs) := by
  induction xs using List.reverseRecOn with
  | nil => exact .empty
  | append_singleton xs x ih =>
    rw [foldInputs_concat]
    exact .update x ih

/-- The count of a fold is the number of its inputs, as a word. -/
theorem count_foldInputs (f : AggregateFunction) (xs : List UInt64) :
    (f.foldInputs xs).count = UInt64.ofNat xs.length := (reached_foldInputs f xs).count_eq

/-- **A fold is ignored only if it has no inputs**, so nothing is lost with it. -/
theorem ignores_foldInputs {f : AggregateFunction} {xs : List UInt64}
    (hlen : f.IsSum → xs.length < UInt64.size) (h : f.ignores (f.foldInputs xs) = true) :
    xs = [] :=
  (reached_foldInputs f xs).inputs_of_ignores (fun hk => eq_zero_of_ofNat_eq_zero (hlen hk)) h

/-! ## Merging folds -/

/-- Contributing a tally and then an input is contributing the tally that has taken the input. -/
theorem contribute_contribute {f : AggregateFunction} (hf : f.IsOrderFree) (t u : Tally)
    (hu : f.IsExtremum → u.isSet = true) (w k : UInt64) :
    f.contribute (f.contribute t u.value u.count) w k =
      f.contribute t (f.contribute u w k).value (f.contribute u w k).count := by
  have hcount : t.count + u.count + k = t.count + (u.count + k) := UInt64.add_assoc _ _ _
  rcases f.kind_cases with hk | hk | hk
  · simp only [contribute_of_count hk, hcount]
  · simp only [contribute_of_sum hk, hcount, hf.add_assoc hk]
  · simp only [contribute_of_extremum hk, hcount, hu hk, if_true]
    cases t.isSet with
    | false => simp only [Bool.false_eq_true, if_false]
    | true => simp only [if_true, best_assoc hk]

/-- What the first input leaves behind, brought into a tally, is that input. -/
theorem contribute_first {f : AggregateFunction} (hf : f.IsOrderFree) (t : Tally) (x : UInt64) :
    f.contribute t (f.update .empty x).value (f.update .empty x).count = f.update t x := by
  have hone : (f.update .empty x).count = 1 := by rw [update, count_contribute]; rfl
  rw [hone]
  rcases f.kind_cases with hk | hk | hk
  · simp only [update, contribute_of_count hk]
  · have hvalue : (f.update .empty x).value = f.numeric.add 0 x := by
      rw [update, contribute_of_sum hk]; rfl
    rw [hvalue, update, contribute_of_sum hk, contribute_of_sum hk, ← hf.add_assoc hk,
      hf.add_zero hk]
  · rw [update, update, contribute_of_extremum hk Tally.empty]
    rfl

/-- **Merging what a list gathered is folding the list**, into any tally whatever. -/
theorem merge_foldInputs {f : AggregateFunction} (hf : f.IsOrderFree) (t : Tally)
    (ys : List UInt64) (hlen : f.IsSum → ys.length < UInt64.size) :
    f.merge t (f.foldInputs ys) = ys.foldl f.update t := by
  induction ys using List.reverseRecOn with
  | nil => exact merge_empty f t
  | append_singleton ys y ih =>
    have hlen' : f.IsSum → ys.length < UInt64.size := by
      intro hk
      have hlonger := hlen hk
      rw [List.length_append] at hlonger
      omega
    have hkeeps : f.ignores (f.foldInputs (ys ++ [y])) = false := by
      rw [← Bool.not_eq_true]
      intro h
      exact absurd (ignores_foldInputs hlen h) (by simp)
    rw [merge_of_not_ignores hkeeps, foldInputs_concat, List.foldl_append]
    show _ = f.update (ys.foldl f.update t) y
    rw [← ih hlen']
    -- the merged part is either skipped, and then `y` is the first input, or contributes before `y`
    cases hs : f.ignores (f.foldInputs ys) with
    | true =>
      rw [merge_of_ignores hs, ignores_foldInputs hlen' hs]
      exact contribute_first hf t y
    | false =>
      rw [merge_of_not_ignores hs]
      refine (contribute_contribute hf t (f.foldInputs ys) ?_ y 1).symm
      intro hk
      rcases hk with hk | hk <;> simpa [ignores, hk] using hs

/-- **Two folds merge into the fold of both**, one after the other. -/
theorem merge_foldInputs_foldInputs {f : AggregateFunction} (hf : f.IsOrderFree)
    (xs ys : List UInt64) (hlen : f.IsSum → ys.length < UInt64.size) :
    f.merge (f.foldInputs xs) (f.foldInputs ys) = f.foldInputs (xs ++ ys) := by
  rw [merge_foldInputs hf _ ys hlen, foldInputs_append]

/-- **However a tally came about, it is the fold of the inputs.** -/
theorem Reached.eq_foldInputs {f : AggregateFunction} {xs : List UInt64} {t : Tally}
    (h : f.Reached xs t) (hf : f.IsOrderFree) (hlen : f.IsSum → xs.length < UInt64.size) :
    t = f.foldInputs xs := by
  induction h with
  | empty => rfl
  | @update xs t x _ iht =>
    have hxs : f.IsSum → xs.length < UInt64.size := by
      intro hk
      have htotal := hlen hk
      rw [List.length_append] at htotal
      omega
    rw [iht hxs, foldInputs_concat]
  | @merge xs ys t u _ _ iht ihu =>
    have hxs : f.IsSum → xs.length < UInt64.size := by
      intro hk
      have htotal := hlen hk
      rw [List.length_append] at htotal
      omega
    have hys : f.IsSum → ys.length < UInt64.size := by
      intro hk
      have htotal := hlen hk
      rw [List.length_append] at htotal
      omega
    rw [iht hxs, ihu hys, merge_foldInputs_foldInputs hf _ _ hys]

/-! ## Any tree of merges -/

/-- `Gathers f xs t`: the tally `t` came from the inputs `xs`, folded in parts and merged. -/
inductive Gathers (f : AggregateFunction) : List UInt64 → Tally → Prop
  | fold (xs : List UInt64) : Gathers f xs (f.foldInputs xs)
  | merge {xs ys : List UInt64} {t u : Tally} :
      Gathers f xs t → Gathers f ys u → Gathers f (xs ++ ys) (f.merge t u)

/-- To fold parts and merge them is another one. -/
theorem Gathers.reached {f : AggregateFunction} {xs : List UInt64} {t : Tally}
    (h : f.Gathers xs t) : f.Reached xs t := by
  induction h with
  | fold xs => exact reached_foldInputs f xs
  | merge _ _ iht ihu => exact .merge iht ihu

/-- **The count is the number of inputs**, as a word. -/
theorem Gathers.count_eq {f : AggregateFunction} {xs : List UInt64} {t : Tally}
    (h : f.Gathers xs t) : t.count = UInt64.ofNat xs.length := h.reached.count_eq

/-- **However a list was cut up and merged, the result is the fold of the list.** -/
theorem Gathers.eq_foldInputs {f : AggregateFunction} {xs : List UInt64} {t : Tally}
    (h : f.Gathers xs t) (hf : f.IsOrderFree) (hlen : f.IsSum → xs.length < UInt64.size) :
    t = f.foldInputs xs := h.reached.eq_foldInputs hf hlen

/-- Merging any number of tallies one after the other gathers what they gathered. -/
theorem Gathers.foldl_merge {ι : Type} {f : AggregateFunction} {inputs : ι → List UInt64}
    {tally : ι → Tally} (l : List ι) (hl : ∀ i ∈ l, f.Gathers (inputs i) (tally i))
    {xs : List UInt64} {t : Tally} (h : f.Gathers xs t) :
    f.Gathers (xs ++ l.flatMap inputs) (l.foldl (fun t i => f.merge t (tally i)) t) := by
  induction l generalizing xs t with
  | nil => rwa [List.flatMap_nil, List.append_nil]
  | cons i l ih =>
    rw [List.flatMap_cons, ← List.append_assoc]
    exact ih (fun j hj => hl j (List.mem_cons_of_mem i hj)) (.merge h (hl i List.mem_cons_self))

end AggregateFunction
end Cohort
