import Cohort.Proofs.Grouping.Coverage
import Cohort.Proofs.Scalar.Order
/-
  READING results: from tallies to values, and from groups to rows.

  1. **Specification.**  `GroupingSpec.groupBy` is what a specification asks of a list of rows, said
     without dictionaries, states or workers: for every tuple of key values, in ascending order,
     each aggregate over the rows that have the tuple.

  2. **One group.**  Where every tally can be read, the values of the aggregates are those of the
     tallies, aggregate by aggregate (`Group.exists_aggregates`).

  3. **All groups.**  Where every group can be read, so can the sorted rows, one for each group
     (`Results.exists_sortedRows`).
-/

namespace Cohort

/-! ## What is asked for -/

namespace GroupingSpec

variable [FloatAddition]

/-- The value of an aggregate over those of some rows that have given key values. -/
def valueOf (spec : GroupingSpec) (t : Table) (rows : List Nat) (values : List Scalar)
    (a : Aggregate) : Scalar :=
  a.function.finalize (a.tallyOf t (spec.members t rows values))

/-- The key values that rows bring, each with the values of all aggregates, in ascending order. -/
def groupBy (spec : GroupingSpec) (t : Table) (rows : List Nat) :
    List (List Scalar × List Scalar) :=
  Results.sortRows ((spec.discovered t rows).map fun k =>
    (k.values, spec.aggregates.map (spec.valueOf t rows k.values)))

end GroupingSpec

example : GroupingSpec.sample.groupBy .sample [0, 1, 2] =
    [([.null], [.int 1, .int 2]), ([.int 7], [.int 2, .int 1])] := by cbv

/-! ## One group -/

/-- A group whose tallies can be read has a value for every aggregate. -/
theorem Group.exists_aggregates {g : Group} {R : Aggregate → Scalar → Prop}
    (h : ∀ j a, g.results.aggregates[j]? = some a →
      ∃ tally, g.results.load j g.ordinal = .ok tally ∧ R a (a.function.finalize tally)) :
    ∃ values, g.aggregates = .ok values ∧ List.Forall₂ R g.results.aggregates values := by
  have hall : ∀ p ∈ g.results.aggregates.zipIdx, ∃ v, g.finalized p.1 p.2 = .ok v ∧ R p.1 v := by
    intro p hp
    obtain ⟨tally, hload, hR⟩ := h p.2 p.1 (List.mem_zipIdx_iff_getElem?.mp hp)
    refine ⟨_, ?_, hR⟩
    rw [Group.finalized, hload]
    rfl
  obtain ⟨values, hvalues, hpairs⟩ := exists_mapM hall
  refine ⟨values, hvalues, ?_⟩
  have hmap := (List.forall₂_map_left_iff (f := Prod.fst)).mpr hpairs
  rwa [List.zipIdx_map_fst] at hmap

/-- The values of a group whose tallies are known. -/
theorem Group.aggregates_eq {g : Group} {τ : Aggregate → Tally}
    (h : ∀ j a, g.results.aggregates[j]? = some a → g.results.load j g.ordinal = .ok (τ a)) :
    g.aggregates = .ok (g.results.aggregates.map fun a => a.function.finalize (τ a)) := by
  obtain ⟨values, hvalues, hpairs⟩ := Group.exists_aggregates (g := g)
    (R := fun a v => a.function.finalize (τ a) = v) fun j a ha => ⟨τ a, h j a ha, rfl⟩
  have hmap := List.forall₂_map_left_iff (R := Eq).mpr hpairs
  rw [List.forall₂_eq_eq_eq] at hmap
  rw [hvalues, hmap]

/-! ## All groups -/

namespace Results

variable {r : Results}

/-- The groups of results are their keys, by ordinal. -/
theorem mem_groups_iff {g : Group} :
    g ∈ r.groups ↔ g.results = r ∧ r.keys.toList[g.ordinal]? = some g.key := by
  rw [groups, List.mem_map]
  constructor
  · rintro ⟨p, hp, rfl⟩
    exact ⟨rfl, List.mem_zipIdx_iff_getElem?.mp hp⟩
  · rintro ⟨rfl, hkey⟩
    exact ⟨(g.key, g.ordinal), List.mem_zipIdx_iff_getElem?.mpr hkey, rfl⟩

theorem map_key_groups (r : Results) : r.groups.map (·.key) = r.keys.toList := by
  rw [groups, List.map_map]
  exact List.zipIdx_map_fst 0 _

/-- **Where every group can be read, so can the sorted rows**, one for each group. -/
theorem exists_sortedRows {R : List Scalar → List Scalar → Prop}
    (h : ∀ g ∈ r.groups, ∃ values, g.aggregates = .ok values ∧ R g.keyValues values) :
    ∃ rows, r.sortedRows = .ok rows ∧ (∀ x ∈ rows, R x.1 x.2) ∧
      rows.map Prod.fst = (r.keys.toList.map (·.values)).mergeSort Scalar.noGreater := by
  have hall : ∀ g ∈ r.groups, ∃ x : List Scalar × List Scalar,
      (do let values ← g.aggregates; return (g.keyValues, values) : Except Error _) = .ok x ∧
        (x.1 = g.key.values ∧ R x.1 x.2) := by
    intro g hg
    obtain ⟨values, hvalues, hR⟩ := h g hg
    refine ⟨(g.keyValues, values), ?_, rfl, hR⟩
    rw [hvalues]
    rfl
  obtain ⟨rows, hrows, hpairs⟩ := exists_mapM hall
  have hread : rows.map Prod.fst = r.groups.map (·.key.values) ∧ ∀ x ∈ rows, R x.1 x.2 := by
    -- the induction is on the groups as a list, not as those of `r`
    clear hall hrows
    generalize r.groups = gs at hpairs ⊢
    induction hpairs with
    | nil => exact ⟨rfl, nofun⟩
    | @cons g x gs rows hx _ ih =>
      obtain ⟨hkeys, hvalues⟩ := ih
      constructor
      · rw [List.map_cons, List.map_cons, hx.1, hkeys]
      · exact List.forall_mem_cons.mpr ⟨hx.2, hvalues⟩
  refine ⟨sortRows rows, ?_, fun x hx => hread.2 x (List.mem_mergeSort.mp hx), ?_⟩
  · rw [sortedRows, hrows]
    rfl
  · rw [keys_sortRows, hread.1, ← r.map_key_groups, List.map_map]
    rfl

end Results
end Cohort
