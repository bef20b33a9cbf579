import Cohort.Proofs.Grouping.Reading
import Cohort.Proofs.Scalar.Order
/-
  CANONICAL output: sorted rows are strictly ascending, and there is one way to sort them.

  1. **Order.**  `OrdersTotally` is what is asked of a comparison: a total order in which exactly
     those are equal that put rows into one group.  Scalars have one, and lists of scalars have the
     one it induces: the first pair of values that differ decides, and then the lengths
     (`compareLists_eq_find`).

  2. **Groups.**  `Results.Lists` says that results hold a list of groups, each a key with a tally
     for every aggregate, in the order of the list.  What is read from them are its pairs of key
     values and aggregate values (`Results.Lists.mapM_row`).

  3. **Rows.**  Sorting pairs of different key values leaves one list, whatever order they come in
     (`sortRows_eq_of_perm`).  So sorted rows do not show how the groups were enumerated.
-/

namespace Cohort

/-! ## Total orders up to equality in groups -/

/-- A comparison is a total order in which `same` is being equal. -/
structure OrdersTotally {α : Type} (compare : α → α → Ordering) (same : α → α → Bool) : Prop where
  refl : ∀ a, compare a a = .eq
  trans : ∀ a b c, (compare a b).isLE = true → (compare b c).isLE = true →
    (compare a c).isLE = true
  total : ∀ a b, (compare a b).isLE = true ∨ (compare b a).isLE = true
  antisymm : ∀ a b, (compare a b).isLE = true → (compare b a).isLE = true → same a b = true
  swap : ∀ a b, compare b a = (compare a b).swap
  eq_iff : ∀ a b, compare a b = .eq ↔ same a b = true

/-- A lawful comparison orders totally, if `same` is equality. -/
theorem ordersTotally_of_lawful {α : Type} {compare : α → α → Ordering} [Std.TransCmp compare]
    [Std.LawfulEqCmp compare] {same : α → α → Bool} (hsame : ∀ a b, same a b = true ↔ a = b) :
    OrdersTotally compare same where
  refl _ := Std.ReflCmp.compare_self
  trans _ _ _ h h' := Std.TransCmp.isLE_trans h h'
  total a b := by
    have hswap : compare b a = (compare a b).swap := Std.OrientedCmp.eq_swap
    rw [hswap]
    cases compare a b <;> decide
  antisymm a b h h' :=
    (hsame a b).mpr (Std.LawfulEqCmp.eq_of_compare (Std.OrientedCmp.isLE_antisymm h h'))
  swap _ _ := Std.OrientedCmp.eq_swap
  eq_iff a b := Std.LawfulEqCmp.compare_eq_iff_eq.trans (hsame a b).symm

namespace Scalar

/-- **Lists compare by the first pair that differs**, and by their lengths if none does. -/
theorem compareLists_eq_find (as bs : List Scalar) :
    compareLists as bs = (((as.zip bs).map fun p => compare p.1 p.2).find? (· != .eq)).getD
      (Ord.compare as.length bs.length) := by
  induction as generalizing bs with
  | nil => cases bs <;> rfl
  | cons a as ih =>
    cases bs with
    | nil => rfl
    | cons b bs =>
      have hlengths : Ord.compare (a :: as).length (b :: bs).length =
          Ord.compare as.length bs.length := by
        rw [List.length_cons, List.length_cons, Nat.compare_eq_ite_lt, Nat.compare_eq_ite_lt]
        simp only [Nat.add_lt_add_iff_right]
      rw [compareLists, ih, hlengths, List.zip_cons_cons, List.map_cons, List.find?_cons]
      cases compare a b <;> rfl

/-- Lists that stand in order and differ are in strict order. -/
theorem compareLists_eq_lt {as bs : List Scalar} (h : noGreater as bs = true) (hne : as ≠ bs) :
    compareLists as bs = .lt := by
  have hnot : compareLists as bs ≠ .eq := fun heq => hne (Std.LawfulEqCmp.eq_of_compare heq)
  rw [noGreater] at h
  generalize compareLists as bs = o at h hnot
  cases o with
  | lt => rfl
  | eq => exact absurd rfl hnot
  | gt => cases h

end Scalar

/-! ## Sorting rows -/

namespace Results

variable {pairs pairs' : List (List Scalar × List Scalar)}

theorem sortRows_perm (pairs : List (List Scalar × List Scalar)) : (sortRows pairs).Perm pairs :=
  List.mergeSort_perm pairs _

theorem pairwise_sortRows (pairs : List (List Scalar × List Scalar)) :
    (sortRows pairs).Pairwise fun a b => Scalar.noGreater a.1 b.1 = true :=
  List.pairwise_mergeSort (fun a b c => Scalar.noGreater_trans a.1 b.1 c.1)
    (fun a b => Scalar.noGreater_total a.1 b.1) pairs

/-- Rows of different key values are sorted in strict order. -/
theorem sortRows_strict (h : pairs.Pairwise fun a b => a.1 ≠ b.1) :
    (sortRows pairs).Pairwise fun a b => Scalar.compareLists a.1 b.1 = .lt := by
  have hdiffer : (sortRows pairs).Pairwise fun a b => a.1 ≠ b.1 :=
    ((sortRows_perm pairs).pairwise_iff fun hab => hab.symm).mpr h
  exact (pairwise_sortRows pairs).imp₂ (fun _ _ => Scalar.compareLists_eq_lt) hdiffer

/-- **Rows of different key values are sorted in one way.** -/
theorem sortRows_eq_of_perm (h : pairs.Pairwise fun a b => a.1 ≠ b.1) (hperm : pairs'.Perm pairs) :
    sortRows pairs' = sortRows pairs := by
  have hsorted : (sortRows pairs').Perm (sortRows pairs) :=
    (sortRows_perm pairs').trans (hperm.trans (sortRows_perm pairs).symm)
  refine hsorted.eq_of_pairwise (fun a b ha hb hab hba => ?_) (pairwise_sortRows pairs')
    (pairwise_sortRows pairs)
  have hkeys : a.1 = b.1 := Scalar.noGreater_antisymm hab hba
  have ha' : a ∈ pairs := hperm.mem_iff.mp ((sortRows_perm pairs').mem_iff.mp ha)
  have hb' : b ∈ pairs := (sortRows_perm pairs).mem_iff.mp hb
  have hsymm : Std.Symm fun a b : List Scalar × List Scalar => a.1 ≠ b.1 := ⟨fun _ _ h => h.symm⟩
  by_contra hne
  exact h.forall ha' hb' hne hkeys

end Results

/-! ## Groups in a list -/

/-- Work that always succeeds gives what it gives on every member. -/
theorem mapM_eq_ok {α β : Type} {f : α → Except Error β} {g : α → β} {l : List α}
    (h : ∀ a ∈ l, f a = .ok (g a)) : l.mapM f = .ok (l.map g) := by
  induction l with
  | nil => rfl
  | cons a l ih =>
    rw [List.mapM_cons, h a List.mem_cons_self, ih fun b hb => h b (List.mem_cons_of_mem a hb)]
    rfl

/-- The key values of a group and the values of its aggregates. -/
def Group.row (g : Group) : Except Error (List Scalar × List Scalar) := do
  let values ← g.aggregates
  return (g.keyValues, values)

/-- The key values of a key and the values of aggregates whose tallies are known. -/
def Aggregate.pair (aggregates : List Aggregate) (g : Key × List Tally) :
    List Scalar × List Scalar :=
  (g.1.values, aggregates.zipWith (fun a tally => a.function.finalize tally) g.2)

namespace Results

/-- These results hold these groups, each with a tally for every aggregate, in this order. -/
structure Lists (r : Results) (gs : List (Key × List Tally)) : Prop where
  keys : r.keys.toList = gs.map Prod.fst
  length : ∀ g ∈ gs, g.2.length = r.aggregates.length
  load : ∀ (o : Nat) (g : Key × List Tally), gs[o]? = some g → ∀ (j : Nat) (tally : Tally),
    g.2[j]? = some tally → r.load j o = .ok tally

/-- The results that hold a list of groups. -/
def ofGroups (t : Table) (aggregates : List Aggregate) (groupNames : List String)
    (gs : List (Key × List Tally)) : Results :=
  ⟨t, aggregates, groupNames, (gs.map Prod.fst).toArray, fun j o =>
    match (gs[o]?).bind fun g => g.2[j]? with
    | some tally => .ok tally
    | none => .error (.outOfRange o gs.length)⟩

/-- Every list of groups is the list of some results. -/
theorem lists_ofGroups (t : Table) {aggregates : List Aggregate} (groupNames : List String)
    {gs : List (Key × List Tally)} (h : ∀ g ∈ gs, g.2.length = aggregates.length) :
    (ofGroups t aggregates groupNames gs).Lists gs where
  keys := rfl
  length := h
  load o g hg j tally htally := by
    simp [ofGroups, hg, htally]

variable {r : Results} {gs : List (Key × List Tally)}

/-- A group of the list reads as its pair. -/
theorem Lists.row_eq (h : r.Lists gs) {o : Nat} {g : Key × List Tally} (hg : gs[o]? = some g) :
    (⟨r, o, g.1⟩ : Group).row = .ok (Aggregate.pair r.aggregates g) := by
  have hlength := h.length g (List.mem_of_getElem? hg)
  have hvalues : (⟨r, o, g.1⟩ : Group).aggregates =
      .ok (r.aggregates.zipIdx.map fun p => p.1.function.finalize (g.2[p.2]?.getD .empty)) := by
    refine mapM_eq_ok fun p hp => ?_
    have hp' : p.2 < g.2.length := by
      have hnumber : p.2 < r.aggregates.length :=
        (List.getElem?_eq_some_iff.mp (List.mem_zipIdx_iff_getElem?.mp hp)).1
      omega
    have hload := h.load o g hg p.2 g.2[p.2] (List.getElem?_eq_getElem hp')
    rw [Group.finalized, hload, List.getElem?_eq_getElem hp']
    rfl
  have hzip : (r.aggregates.zipIdx.map fun p => p.1.function.finalize (g.2[p.2]?.getD .empty)) =
      r.aggregates.zipWith (fun a tally => a.function.finalize tally) g.2 := by
    refine List.ext_getElem (by simp [hlength]) fun i hi hi' => ?_
    have hlt : i < g.2.length := by
      rw [List.length_zipWith] at hi'
      omega
    simp [hlt]
  rw [Group.row, hvalues, hzip]
  rfl

/-- **All groups of the list read as their pairs**, in the order of the list. -/
theorem Lists.mapM_row (h : r.Lists gs) :
    r.groups.mapM Group.row = .ok (gs.map (Aggregate.pair r.aggregates)) := by
  have hgroups : r.groups = gs.zipIdx.map fun p => ⟨r, p.2, p.1.1⟩ := by
    rw [groups, h.keys, List.zipIdx_map, List.map_map]
    rfl
  have hpairs : gs.map (Aggregate.pair r.aggregates) =
      r.groups.map fun g => Aggregate.pair r.aggregates (gs[g.ordinal]?.getD (g.key, [])) := by
    rw [hgroups, List.map_map]
    refine List.ext_getElem (by simp) fun i hi hi' => ?_
    have hlt : i < gs.length := by rwa [List.length_map] at hi
    simp [hlt]
  rw [hpairs]
  refine mapM_eq_ok fun g hg => ?_
  rw [hgroups, List.mem_map] at hg
  obtain ⟨p, hp, rfl⟩ := hg
  have hp' := List.mem_zipIdx_iff_getElem?.mp hp
  rw [h.row_eq hp', hp']
  rfl

/-- Sorted rows are the pairs of the list, sorted. -/
theorem Lists.sortedRows_eq (h : r.Lists gs) :
    r.sortedRows = .ok (sortRows (gs.map (Aggregate.pair r.aggregates))) := by
  show (r.groups.mapM Group.row >>= fun rows => .ok (sortRows rows)) = _
  rw [h.mapM_row]
  rfl

end Results

/-- **Sorted output is canonical.**  Scalars are totally ordered, and so are lists of scalars of any
    lengths, by the first pair that differs and then by length; equal in these orders are exactly
    those that put rows into one group.  Therefore results whose groups have different key values
    have strictly ascending sorted rows, one for each group, and these are the same in whatever
    order the groups are enumerated. -/
theorem sortedRows_canonical :
    OrdersTotally Scalar.compare Scalar.sameGroup ∧
    OrdersTotally Scalar.compareLists Scalar.sameGroups ∧
    (∀ as bs : List Scalar, Scalar.compareLists as bs =
      (((as.zip bs).map fun p => Scalar.compare p.1 p.2).find? (· != .eq)).getD
        (Ord.compare as.length bs.length)) ∧
    ∀ (r : Results) (gs : List (Key × List Tally)), r.Lists gs →
      (gs.Pairwise fun g g' => Scalar.sameGroups g.1.values g'.1.values = false) →
      ∃ rows, r.sortedRows = .ok rows ∧
        (rows.Pairwise fun a b => Scalar.compareLists a.1 b.1 = .lt) ∧
        rows.Perm (gs.map (Aggregate.pair r.aggregates)) ∧
        ∀ (r' : Results) (gs' : List (Key × List Tally)), r'.Lists gs' →
          r'.aggregates = r.aggregates → gs'.Perm gs → r'.sortedRows = .ok rows := by
  refine ⟨ordersTotally_of_lawful fun _ _ => Scalar.sameGroup_iff,
    ordersTotally_of_lawful fun _ _ => Scalar.sameGroups_iff, Scalar.compareLists_eq_find, ?_⟩
  intro r gs h hdistinct
  have hdiffer : (gs.map (Aggregate.pair r.aggregates)).Pairwise fun a b => a.1 ≠ b.1 := by
    rw [List.pairwise_map]
    refine hdistinct.imp fun hne heq => ?_
    exact absurd (Scalar.sameGroups_iff.mpr heq) (ne_true_of_eq_false hne)
  refine ⟨_, h.sortedRows_eq, Results.sortRows_strict hdiffer, Results.sortRows_perm _, ?_⟩
  intro r' gs' h' haggregates hperm
  rw [h'.sortedRows_eq, haggregates, Results.sortRows_eq_of_perm hdiffer (hperm.map _)]

/-- Two NaNs, the two zeros and NULL are five groups, counted from either end. -/
theorem sortedRows_canonical_sample :
    let gs : List (Key × List Tally) :=
      [(⟨7, 0, [.float ⟨0x7FF8000000000001⟩]⟩, [⟨0, 2, false⟩]),
        (⟨7, 1, [.float ⟨0⟩]⟩, [⟨0, 1, false⟩]), (⟨7, 2, [.null]⟩, [⟨0, 3, false⟩]),
        (⟨7, 4, [.float ⟨0x8000000000000000⟩]⟩, [⟨0, 1, false⟩]),
        (⟨7, 6, [.float ⟨0x7FF8000000000000⟩]⟩, [⟨0, 4, false⟩])]
    let r := Results.ofGroups .sample [.countRows] ["x"] gs
    let r' := Results.ofGroups .sample [.countRows] ["x"] gs.reverse
    r.Lists gs ∧ r'.Lists gs.reverse ∧ gs.reverse.Perm gs ∧
    (gs.Pairwise fun g g' => Scalar.sameGroups g.1.values g'.1.values = false) ∧
    ∃ rows, r.sortedRows = .ok rows ∧ r'.sortedRows = .ok rows ∧
      (rows.Pairwise fun a b => Scalar.compareLists a.1 b.1 = .lt) ∧
      rows.Perm (gs.map (Aggregate.pair [.countRows])) := by
  intro gs r r'
  have h : r.Lists gs := Results.lists_ofGroups _ _ (by decide)
  have h' : r'.Lists gs.reverse := Results.lists_ofGroups _ _ (by decide)
  have hperm : gs.reverse.Perm gs := gs.reverse_perm
  have hdistinct : gs.Pairwise fun g g' => Scalar.sameGroups g.1.values g'.1.values = false := by
    decide
  obtain ⟨rows, hrows, hascending, hpairs, hsame⟩ := sortedRows_canonical.2.2.2 r gs h hdistinct
  exact ⟨h, h', hperm, hdistinct, rows, hrows, hsame r' gs.reverse h' rfl hperm, hascending, hpairs⟩

end Cohort
