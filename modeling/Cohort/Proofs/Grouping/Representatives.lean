import Cohort.Proofs.Grouping.Reading
/-
  The row that REPRESENTS a group is a row of the group, and the first one that a worker met.

  A key carries the row it was made from through the evaluator's cache, a worker's dictionary, the
  merges of jobs and the race for a place among the shared groups, and each of these keeps one key
  of a group and drops the others.  That no key is made up on the way is what `Results.Covers` says
  of the source of keys: a key is one that some span brings by itself.

  1. **Of keys.**  What a key that some rows bring says about those rows
     (`GroupingSpec.isFirst_of_mem_discovered`).

  2. **Of groups.**  So a group of results that cover spans is represented by its first row in one
     of them (`Results.Covers.represents`), and by its first row of all where one job gathered all
     rows (`groups_represented`).
-/

namespace Cohort

/-- A row is the first among ascending rows that has these key values. -/
structure GroupingSpec.IsFirst (spec : GroupingSpec) (t : Table) (rows : List Nat)
    (values : List Scalar) (row : Nat) : Prop where
  mem : row ∈ rows
  /-- The key expressions evaluate to the values on this row, -/
  evaluate_eq : Key.evaluate spec.keys t row = values
  /-- and on none before it. -/
  minimal : ∀ row' ∈ rows, row' < row → Key.evaluate spec.keys t row' ≠ values

/-- Results each group of which is represented by its first row in one of some spans. -/
structure Results.Represents (spec : GroupingSpec) (t : Table) (spans : List Span) (r : Results) :
    Prop where
  /-- The row exists. -/
  real : ∀ g ∈ r.groups, g.rowIndex < t.rowCount
  /-- It is the first row of the group in the span of some worker. -/
  first : ∀ g ∈ r.groups, ∃ s ∈ spans, spec.IsFirst t s.rows g.keyValues g.rowIndex
  /-- No two groups have the same key values. -/
  distinct : r.groups.Pairwise fun a b => a.keyValues ≠ b.keyValues

section

variable {spec : GroupingSpec} {t : Table} {spans : List Span} {r : Results}

/-! ## Of keys -/

/-- A key that ascending rows bring was made from the first of them with its values. -/
theorem GroupingSpec.isFirst_of_mem_discovered {rows : List Nat} {k : Key}
    (hrows : rows.Pairwise (· < ·)) (h : k ∈ spec.discovered t rows) :
    spec.IsFirst t rows k.values k.row := by
  obtain ⟨row, hfirst, rfl⟩ := List.mem_map.mp h
  exact ⟨mem_of_mem_firsts hfirst, rfl,
    fun row' hrow' hlt => ne_of_lt_of_mem_firsts hrows hfirst hrow' hlt⟩

/-! ## Of groups -/

/-- The groups of results whose keys are known. -/
theorem Results.represents_of_keys
    (hdistinct : r.keys.toList.Pairwise fun a b => a.values ≠ b.values)
    (hsource : ∀ k ∈ r.keys.toList, ∃ s ∈ spans, k ∈ spec.discovered t s.rows)
    (hspans : Consecutive 0 spans t.rowCount) : r.Represents spec t spans := by
  have hfirst : ∀ g ∈ r.groups, ∃ s ∈ spans, spec.IsFirst t s.rows g.keyValues g.rowIndex := by
    intro g hg
    have hkey : g.key ∈ r.keys.toList := by
      rw [← r.map_key_groups]
      exact List.mem_map_of_mem hg
    obtain ⟨s, hs, hk⟩ := hsource g.key hkey
    exact ⟨s, hs, GroupingSpec.isFirst_of_mem_discovered List.pairwise_lt_range' hk⟩
  refine ⟨fun g hg => ?_, hfirst, ?_⟩
  · obtain ⟨s, hs, hk⟩ := hfirst g hg
    have hmem : g.rowIndex ∈ spans.flatMap Span.rows := List.mem_flatMap.mpr ⟨s, hs, hk.mem⟩
    rw [hspans.flatMap_rows] at hmem
    exact (Span.mem_rows.mp hmem).2
  · rwa [← r.map_key_groups, List.pairwise_map] at hdistinct

variable [FloatAddition]

theorem Results.Covers.represents (h : r.Covers spec t spans)
    (hspans : Consecutive 0 spans t.rowCount) : r.Represents spec t spans :=
  r.represents_of_keys h.distinct h.source hspans

/-- **Every group is represented by a row of its own.**  Whenever grouping a table with rows
    succeeds, by whatever strategy, storage mode, number of threads and schedule, the row that
    stands for a group is a row of the table, the key expressions evaluate to the group's key values
    there, and nowhere before it in the span of the worker it came from; with `localMerge`, nowhere
    before it in the table.  No two groups have the same key values. -/
theorem groups_represented {e : Engine} {schedule : List Nat}
    (hr : e.group t schedule = .ok r) (hrows : t.rowCount ≠ 0) :
    ∃ spans, partition t.rowCount e.config.threads = .ok spans ∧ r.Represents e.spec t spans ∧
      (e.config.strategy = .localMerge → r.Represents e.spec t [⟨0, t.rowCount⟩]) := by
  have hle := Engine.threads_le_of_group_ok hr hrows
  have hpos : 0 < e.config.threads := Nat.pos_of_ne_zero e.threads_ne_zero
  obtain ⟨spans, hpartition, hlength, hspans, -⟩ := partition_spec hpos hle
  have hne : spans ≠ [] := List.length_pos_iff.mp (by omega)
  obtain ⟨r', hr', hcovers⟩ := e.groupSpans_covers e.config.storage.Layout hne hspans schedule
  rw [← Engine.group_of_partition hrows hpartition, hr] at hr'
  cases hr'
  refine ⟨spans, hpartition, hcovers.represents hspans, fun hlocal => ?_⟩
  -- the keys of the merged jobs are those that all rows bring
  obtain ⟨r', hr', hkeys⟩ := Engine.keys_of_localMerge hlocal (.inr hle) schedule
  rw [hr] at hr'
  cases hr'
  refine r.represents_of_keys hcovers.distinct (fun k hk => ?_) ⟨rfl, Nat.zero_le _, rfl⟩
  exact ⟨_, List.mem_singleton_self _, hkeys ▸ hk⟩

end

/-- Two scanners, of which the second does all its work before the first: the group of rows 0 and 2
    is represented by row 2. -/
theorem groups_represented_sample :
    let e : Engine := ⟨⟨2, .globalMerge, .list⟩, .sample, by decide, Or.inl (by decide)⟩
    let schedule := List.replicate 10 1
    Table.sample.rowCount ≠ 0 ∧ ∃ r, e.group .sample schedule = .ok r ∧
      r.groups.map (·.rowIndex) = [1, 2] ∧ r.Represents .sample .sample [⟨0, 1⟩, ⟨1, 3⟩] := by
  intro e schedule
  have hrows : Table.sample.rowCount ≠ 0 := by decide
  have hrun : (e.group .sample schedule).toOption.map (·.groups.map (·.rowIndex)) =
      some [1, 2] := by decide
  cases hr : e.group .sample schedule with
  | error err =>
    rw [hr] at hrun
    cases hrun
  | ok r =>
    rw [hr] at hrun
    obtain ⟨spans, hspans, hrepresents, -⟩ := groups_represented hr hrows
    have hcut : partition Table.sample.rowCount 2 = .ok [⟨0, 1⟩, ⟨1, 3⟩] := by rfl
    cases hcut.symm.trans hspans
    exact ⟨hrows, r, rfl, Option.some.inj hrun, hrepresents⟩

end Cohort
