import Mathlib.Data.List.Induction
import Cohort.Grouping.Results
/-
  The order of scalars is TOTAL, and sorted rows are canonical.

  1. **Scalars.**  Values compare by type first; within a type each is told apart by a number or a
     text.  So `compare` is lexicographic on three keys (`compare_eq_lex`), and the laws of the
     orders of numbers and texts carry over, equality included.

  2. **Lists.**  `compareLists` is the lexicographic order on lists, laws included.

  3. **Equality in groups.**  Values put rows into one group by content, floats by their bits.  That
     is equality (`sameGroup_iff`), also of lists (`sameGroups_iff`).

  4. **Rows.**  A list of tuples has one ascending order, whatever order it comes in
     (`mergeSort_eq_of_perm`), and to sort rows is to sort their key values (`keys_sortRows`).
-/

namespace Cohort

namespace Scalar

/-- What tells values of one type apart, if it is a number. -/
def number : Scalar → Int
  | .boolean b => b.toNat
  | .int v => v.toInt
  | .float x => x.rank
  | .null => 0
  | .text _ => 0

/-- What tells values of one type apart, if it is a text. -/
def string : Scalar → String
  | .text s => s
  | _ => ""

/-- **Values compare by type, then by number, then by text.** -/
theorem compare_eq_lex : compare = compareLex (compareOn fun v => v.datatype.rank)
    (compareLex (compareOn number) (compareOn string)) := by
  funext a b
  cases a <;> cases b <;> try rfl
  -- pairs of different types are settled by their type; what is left is one pair per type
  case boolean.boolean a b => cases a <;> cases b <;> rfl
  all_goals
    simp [compare, compareLex, compareOn, datatype, DataType.rank, number, string]

instance : Std.TransCmp compare := by
  rw [compare_eq_lex]
  infer_instance

instance : Std.LawfulEqCmp compare where
  eq_of_compare {a b} h := by
    rw [compare_eq_lex, compareLex_eq_eq, compareLex_eq_eq] at h
    obtain ⟨htype, hnumber, hstring⟩ := h
    have htype' := DataType.rank_injective (Std.LawfulEqOrd.eq_of_compare htype)
    have hnumber' : a.number = b.number := Std.LawfulEqOrd.eq_of_compare hnumber
    have hstring' : a.string = b.string := Std.LawfulEqOrd.eq_of_compare hstring
    cases a <;> cases b <;> cases htype'
    · rfl
    case boolean.boolean a b => cases a <;> cases b <;> first | rfl | cases hnumber'
    case int.int a b => exact congrArg _ (Int64.toInt_inj.mp hnumber')
    case float.float a b => exact congrArg _ (Binary64.rank_injective hnumber')
    case text.text a b => exact congrArg _ hstring'

/-- Lists of values compare like words. -/
theorem compareLists_eq_lex : compareLists = List.compareLex compare := by
  funext as bs
  induction as generalizing bs with
  | nil => cases bs <;> rfl
  | cons a as ih =>
    cases bs with
    | nil => rfl
    | cons b bs => rw [compareLists, List.compareLex_cons_cons, ih]

instance : Std.TransCmp compareLists := by
  rw [compareLists_eq_lex]
  infer_instance

instance : Std.LawfulEqCmp compareLists := by
  rw [compareLists_eq_lex]
  infer_instance

/-! ## Equality in groups -/

/-- Whether two values put rows into one group: values of one type go by their content, floats by
    their bits, and NULL goes with NULL. -/
def sameGroup : Scalar → Scalar → Bool
  | .null, .null => true
  | .boolean a, .boolean b => a == b
  | .int a, .int b => a == b
  | .float a, .float b => a.bits == b.bits
  | .text a, .text b => a == b
  | _, _ => false

/-- **Values put rows into one group exactly if they are equal.** -/
theorem sameGroup_iff {a b : Scalar} : a.sameGroup b = true ↔ a = b := by
  cases a <;> cases b
  case float.float a b =>
    obtain ⟨a⟩ := a
    obtain ⟨b⟩ := b
    simp [sameGroup]
  all_goals simp [sameGroup]

/-- Whether two lists of values put rows into one group: equally many values, pair by pair. -/
def sameGroups (as bs : List Scalar) : Bool :=
  as.length == bs.length && (as.zip bs).all fun p => p.1.sameGroup p.2

theorem sameGroups_iff {as bs : List Scalar} : sameGroups as bs = true ↔ as = bs := by
  induction as generalizing bs with
  | nil => cases bs <;> simp [sameGroups]
  | cons a as ih =>
    cases bs with
    | nil => simp [sameGroups]
    | cons b bs =>
      rw [List.cons.injEq, ← ih, ← sameGroup_iff]
      simp only [sameGroups, List.length_cons, List.zip_cons_cons, List.all_cons,
        Bool.and_eq_true, beq_iff_eq, Nat.add_right_cancel_iff]
      constructor
      · rintro ⟨hlength, hhead, htail⟩
        exact ⟨hhead, hlength, htail⟩
      · rintro ⟨hhead, hlength, htail⟩
        exact ⟨hlength, hhead, htail⟩

/-! ## Sorting -/

/-- Whether a list of values may stand before another. -/
def noGreater (as bs : List Scalar) : Bool := compareLists as bs != .gt

theorem noGreater_iff {as bs : List Scalar} :
    noGreater as bs = true ↔ (compareLists as bs).isLE = true := by
  rw [noGreater]
  cases compareLists as bs <;> decide

theorem noGreater_trans (as bs cs : List Scalar) (h : noGreater as bs = true)
    (h' : noGreater bs cs = true) : noGreater as cs = true := by
  rw [noGreater_iff] at h h' ⊢
  exact Std.TransCmp.isLE_trans h h'

theorem noGreater_total (as bs : List Scalar) : (noGreater as bs || noGreater bs as) = true := by
  have hswap : compareLists bs as = (compareLists as bs).swap := Std.OrientedCmp.eq_swap
  rw [noGreater, noGreater, hswap]
  cases compareLists as bs <;> decide

theorem noGreater_antisymm {as bs : List Scalar} (h : noGreater as bs = true)
    (h' : noGreater bs as = true) : as = bs := by
  rw [noGreater_iff] at h h'
  exact Std.LawfulEqCmp.eq_of_compare (Std.OrientedCmp.isLE_antisymm h h')

/-- **A list of tuples has one ascending order.** -/
theorem mergeSort_eq_of_perm {l m : List (List Scalar)} (h : l.Perm m) :
    l.mergeSort noGreater = m.mergeSort noGreater := by
  have hperm : (l.mergeSort noGreater).Perm (m.mergeSort noGreater) :=
    (List.mergeSort_perm l _).trans (h.trans (List.mergeSort_perm m _).symm)
  refine hperm.eq_of_pairwise (fun as bs _ _ => noGreater_antisymm) ?_ ?_
  · exact List.pairwise_mergeSort noGreater_trans noGreater_total l
  · exact List.pairwise_mergeSort noGreater_trans noGreater_total m

end Scalar

namespace Results

/-- Sorting rows sorts their key values. -/
theorem keys_sortRows (rows : List (List Scalar × List Scalar)) :
    (sortRows rows).map Prod.fst = (rows.map Prod.fst).mergeSort Scalar.noGreater :=
  List.map_mergeSort fun _ _ _ _ => rfl

end Results
end Cohort
