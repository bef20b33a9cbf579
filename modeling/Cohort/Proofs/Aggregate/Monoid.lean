import Cohort.Proofs.Aggregate.Combination
/-
  Folded tallies form a COMMUTATIVE MONOID under merging, and folding is a homomorphism into it.

  1. **Where.**  On folds of lists of inputs, not on all tallies: a tally with a count but no
     extremum keeps its count when another is merged into it, and loses it when it is merged into
     another.  And as far as the inputs, all together, can be counted in a word: a sum of 2^64
     inputs has the count of none.

  2. **Laws.**  `MergesFolds` lists them.  They all come from two facts: merging two folds is the
     fold of both lists, and a fold does not depend on the order.

  3. **Trees.**  A `MergeTree` is a list that was cut into parts, with a binary tree over them.
     Whatever the parts and the tree, and in whatever order the parts are put into it, the result is
     the fold of the whole list.
-/

namespace Cohort

/-- Parts of a list of inputs, and how their tallies are merged. -/
inductive MergeTree
  /-- The tally of a part is its fold. -/
  | part (inputs : List UInt64)
  /-- The tally of the right side goes into that of the left side. -/
  | merge (left right : MergeTree)

namespace MergeTree

/-- The inputs of all parts, from left to right. -/
def inputs : MergeTree → List UInt64
  | .part xs => xs
  | .merge left right => left.inputs ++ right.inputs

variable [FloatAddition]

/-- The tally at the root. -/
def tally (f : AggregateFunction) : MergeTree → Tally
  | .part xs => f.foldInputs xs
  | .merge left right => f.merge (left.tally f) (right.tally f)

/-- The root has gathered the inputs of all parts. -/
theorem gathers_tally (f : AggregateFunction) (T : MergeTree) : f.Gathers T.inputs (T.tally f) := by
  induction T with
  | part xs => exact .fold xs
  | merge left right ihl ihr => exact .merge ihl ihr

end MergeTree

namespace AggregateFunction

variable [FloatAddition]

/-- How the folds of a function merge, as long as all their inputs can be counted. -/
structure MergesFolds (f : AggregateFunction) : Prop where
  /-- Folding is a homomorphism from lists under concatenation. -/
  append : ∀ xs ys, (xs ++ ys).length < UInt64.size →
    f.merge (f.foldInputs xs) (f.foldInputs ys) = f.foldInputs (xs ++ ys)
  /-- The tally of no inputs is the unit. -/
  empty : ∀ xs, xs.length < UInt64.size →
    f.merge (f.foldInputs xs) .empty = f.foldInputs xs ∧
    f.merge .empty (f.foldInputs xs) = f.foldInputs xs
  assoc : ∀ xs ys zs, (xs ++ ys ++ zs).length < UInt64.size →
    f.merge (f.merge (f.foldInputs xs) (f.foldInputs ys)) (f.foldInputs zs) =
      f.merge (f.foldInputs xs) (f.merge (f.foldInputs ys) (f.foldInputs zs))
  comm : ∀ xs ys, (xs ++ ys).length < UInt64.size →
    f.merge (f.foldInputs xs) (f.foldInputs ys) = f.merge (f.foldInputs ys) (f.foldInputs xs)
  /-- The order of the inputs does not matter. -/
  perm : ∀ xs ys, xs.Perm ys → f.foldInputs xs = f.foldInputs ys
  /-- Nor does it matter how they were cut up and merged. -/
  tree : ∀ (T : MergeTree) xs, T.inputs.Perm xs → xs.length < UInt64.size →
    T.tally f = f.foldInputs xs ∧ f.finalize (T.tally f) = f.finalize (f.foldInputs xs)

/-- **Merging is a commutative monoid on folds, and folding a homomorphism into it**, for counts,
    minima and maxima of any numbers, for sums and averages of integers, and for sums and averages
    of floats under every addition that is itself a commutative monoid. -/
theorem mergesFolds_of_isOrderFree {f : AggregateFunction} (hf : f.IsOrderFree) :
    f.MergesFolds := by
  have happend : ∀ xs ys, (xs ++ ys).length < UInt64.size →
      f.merge (f.foldInputs xs) (f.foldInputs ys) = f.foldInputs (xs ++ ys) := by
    intro xs ys hlen
    rw [List.length_append] at hlen
    exact merge_foldInputs_foldInputs hf xs ys fun _ => by omega
  refine ⟨happend, ?_, ?_, ?_, fun xs ys => foldInputs_perm hf, ?_⟩
  · intro xs hlen
    constructor
    · exact (happend xs [] (by rwa [List.append_nil])).trans (by rw [List.append_nil])
    · exact happend [] xs hlen
  · intro xs ys zs hlen
    have hxy : (xs ++ ys).length < UInt64.size := by
      rw [List.length_append] at hlen
      omega
    have hyz : (ys ++ zs).length < UInt64.size := by
      rw [List.length_append, List.length_append] at hlen
      rw [List.length_append]
      omega
    rw [happend xs ys hxy, happend ys zs hyz, happend _ _ hlen, happend, List.append_assoc]
    rwa [← List.append_assoc]
  · intro xs ys hlen
    have hlen' : (ys ++ xs).length < UInt64.size := by
      rwa [List.perm_append_comm.length_eq]
    rw [happend xs ys hlen, happend ys xs hlen']
    exact foldInputs_perm hf List.perm_append_comm
  · intro T xs hperm hlen
    have htally : T.tally f = f.foldInputs xs := by
      rw [(T.gathers_tally f).eq_foldInputs hf fun _ => hperm.length_eq ▸ hlen]
      exact foldInputs_perm hf hperm
    exact ⟨htally, congrArg f.finalize htally⟩

end AggregateFunction

/-- On other tallies the sides matter: a count without an extremum is kept on the left and lost on
    the right. -/
example :
    let f : AggregateFunction := ⟨.min, .int64⟩
    f.merge ⟨0, 3, false⟩ ⟨4, 1, true⟩ ≠ f.merge ⟨4, 1, true⟩ ⟨0, 3, false⟩ := by decide

/-- Addition of zeros and positive infinities: the sum is infinite as soon as two words are not
    zero. -/
@[reducible]
def FloatAddition.ofInfinities : FloatAddition where
  add a b := if a = 0 then b else if b = 0 then a else UInt64.ofNat Binary64.infinityBits

/-- Zeros and infinities add up in any order. -/
theorem FloatAddition.isCommMonoid_ofInfinities :
    @FloatAddition.IsCommMonoid FloatAddition.ofInfinities := by
  have hinfinite : UInt64.ofNat Binary64.infinityBits ≠ 0 := by decide
  refine @FloatAddition.IsCommMonoid.mk FloatAddition.ofInfinities ?_ ?_ ?_
  · intro a b c
    simp only [add]
    by_cases ha : a = 0 <;> by_cases hb : b = 0 <;> by_cases hc : c = 0 <;>
      simp only [ha, hb, hc, hinfinite, if_true, if_false]
  · intro a b
    simp only [add]
    by_cases ha : a = 0 <;> by_cases hb : b = 0 <;> simp only [ha, hb, if_true, if_false]
  · exact fun a => if_pos rfl

/-- The greatest of three floats, one of the parts being empty, and a sum of two infinities. -/
theorem mergesFolds_sample :
    (let f : AggregateFunction := ⟨.max, .float64⟩
     let T : MergeTree := .merge (.part [5]) (.merge (.part []) (.part [0x8000000000000000, 7]))
     f.IsOrderFree ∧ T.inputs.Perm [7, 5, 0x8000000000000000] ∧
       T.tally f = f.foldInputs [7, 5, 0x8000000000000000]) ∧
    (let _ : FloatAddition := .ofInfinities
     let f : AggregateFunction := ⟨.sum, .float64⟩
     let xs : List UInt64 := [0x7FF0000000000000, 0]
     f.IsOrderFree ∧ (xs ++ xs).length < UInt64.size ∧
       f.merge (f.foldInputs xs) (f.foldInputs xs) = f.foldInputs (xs ++ xs)) := by
  constructor
  · intro f T
    have hf : f.IsOrderFree := by
      rintro ⟨hk | hk, -⟩ <;> cases hk
    have hperm : T.inputs.Perm [7, 5, 0x8000000000000000] := by decide
    exact ⟨hf, hperm, ((AggregateFunction.mergesFolds_of_isOrderFree hf).tree T _ hperm
      (by decide)).1⟩
  · intro _ f xs
    have hf : f.IsOrderFree := fun _ => FloatAddition.isCommMonoid_ofInfinities
    have hlen : (xs ++ xs).length < UInt64.size := by decide
    exact ⟨hf, hlen, (AggregateFunction.mergesFolds_of_isOrderFree hf).append xs xs hlen⟩

end Cohort
