import Cohort.Proofs.Grouping.Representatives
import Cohort.Proofs.Grouping.Viewed
import Cohort.Proofs.States.Guarded
/-
  Results are always READABLE, and what is read belongs to the key.

  1. **One group.**  `Group.Aligned` says of a group that all its aggregates can be read, in a list
     and one by one, with the same values; and that every value is that of a tally which was
     gathered from the rows with the key values of the group, and from no others.

  2. **Guarded runs.**  The same engine can run in a layout that refuses whoever comes back to a
     group that was moved out, or to a place that is not allocated (`Guarded`).  By the laws of
     layouts it is refused nothing, and by the view it is the run in the layout itself.  Hence no
     run comes back to such a group.
-/

namespace Cohort

section

variable [FloatAddition]

/-! ## One group -/

/-- A group of results for some rows, whose aggregates have the given values. -/
structure Group.Aligned (spec : GroupingSpec) (t : Table) (rows : List Nat) (g : Group)
    (values : List Scalar) : Prop where
  all : g.aggregates = .ok values
  length : values.length = spec.aggregates.length
  /-- An aggregate by number is the one in the list, none past its end. -/
  each : ∀ j, g.aggregate j = .ok values[j]?
  /-- What is read was gathered from the rows of the group. -/
  tallies : ∀ j a, spec.aggregates[j]? = some a → ∃ xs tally,
    g.results.load j g.ordinal = .ok tally ∧ values[j]? = some (a.function.finalize tally) ∧
      a.function.Gathers xs tally ∧ xs.Perm (a.inputs t (spec.members t rows g.keyValues))

omit [FloatAddition] in
/-- A group whose tallies can be read has a list of values, and one by one they are the same. -/
theorem Group.exists_values {g : Group}
    (h : ∀ j a, g.results.aggregates[j]? = some a →
      ∃ tally, g.results.load j g.ordinal = .ok tally) :
    ∃ values, g.aggregates = .ok values ∧ values.length = g.results.aggregates.length ∧
      (∀ j, g.aggregate j = .ok values[j]?) ∧
      ∀ j a tally, g.results.aggregates[j]? = some a → g.results.load j g.ordinal = .ok tally →
        values[j]? = some (a.function.finalize tally) := by
  have hall : ∀ p ∈ g.results.aggregates.zipIdx, ∃ v, g.finalized p.1 p.2 = .ok v ∧
      g.finalized p.1 p.2 = .ok v := by
    intro p hp
    obtain ⟨tally, hload⟩ := h p.2 p.1 (List.mem_zipIdx_iff_getElem?.mp hp)
    have hvalue : g.finalized p.1 p.2 = .ok (p.1.function.finalize tally) := by
      rw [Group.finalized, hload]
      rfl
    exact ⟨_, hvalue, hvalue⟩
  obtain ⟨values, hvalues, hpairs⟩ := exists_mapM hall
  have hlength : values.length = g.results.aggregates.length := by
    rw [← hpairs.length_eq, List.length_zipIdx]
  have hat : ∀ {j a}, g.results.aggregates[j]? = some a →
      ∃ v, values[j]? = some v ∧ g.finalized a j = .ok v := by
    intro j a ha
    have hplace : g.results.aggregates.zipIdx[j]? = some (a, j) := by
      rw [List.getElem?_zipIdx, ha, Option.map_some, Nat.zero_add]
    exact getElem?_of_forall₂ hpairs.flip hplace
  refine ⟨values, hvalues, hlength, fun j => ?_, fun j a tally ha hload => ?_⟩
  · rw [Group.aggregate]
    cases ha : g.results.aggregates[j]? with
    | none =>
      have hpast : values.length ≤ j := hlength ▸ List.getElem?_eq_none_iff.mp ha
      rw [List.getElem?_eq_none hpast]
    | some a =>
      obtain ⟨v, hv, hfinalized⟩ := hat ha
      dsimp only
      rw [hfinalized, hv]
      rfl
  · obtain ⟨v, hv, hfinalized⟩ := hat ha
    rw [Group.finalized, hload] at hfinalized
    cases hfinalized
    exact hv

variable {spec : GroupingSpec} {t : Table} {spans : List Span} {r : Results} {b : Nat}

/-- **Groups of results that cover rows are aligned.** -/
theorem Results.Covers.exists_aligned (h : r.Covers spec t spans) (hspans : Consecutive 0 spans b)
    {i : Nat} {g : Group} (hg : r.group? i = some g) :
    ∃ values, g.Aligned spec t (Span.mk 0 b).rows values := by
  rw [Results.group?, Option.map_eq_some_iff] at hg
  obtain ⟨k, hk, rfl⟩ := hg
  have hk' : r.keys.toList[i]? = some k := by rwa [Array.getElem?_toList]
  have htallies := h.tallies i k hk'
  rw [hspans.flatMap_rows, ← h.aggregates] at htallies
  have hloads : ∀ j a, r.aggregates[j]? = some a → ∃ tally, r.load j i = .ok tally := by
    intro j a ha
    obtain ⟨_, tally, hload, -⟩ := htallies j a ha
    exact ⟨tally, hload⟩
  obtain ⟨values, hvalues, hlength, heach, hread⟩ := Group.exists_values (g := ⟨r, i, k⟩) hloads
  refine ⟨values, hvalues, h.aggregates ▸ hlength, heach, fun j a ha => ?_⟩
  rw [← h.aggregates] at ha
  obtain ⟨xs, tally, hload, hgathers, hperm⟩ := htallies j a ha
  exact ⟨xs, tally, hload, hread j a tally ha hload, hgathers, hperm⟩

/-! ## Guarded runs -/

/-- **A guarded run is refused nothing**, and it is the run in the layout of the storage mode. -/
theorem Engine.exists_guarded_run (e : Engine) (hne : spans ≠ []) (hspans : Consecutive 0 spans b)
    (schedule : List Nat) :
    ∃ r guarded, e.groupSpans e.config.storage.Layout t spans schedule = .ok r ∧
      e.groupSpans (Guarded e.config.storage.Layout) t spans schedule = .ok guarded ∧
      guarded.ReadsAs r ∧ guarded.Covers e.spec t spans := by
  obtain ⟨guarded, hguarded, hcovers⟩ :=
    e.groupSpans_covers (Guarded e.config.storage.Layout) hne hspans schedule (t := t)
  obtain ⟨r, hr, hreads⟩ := e.groupSpans_follows t (Guarded.layoutView _) spans schedule hguarded
  exact ⟨r, guarded, hr, hguarded, hreads, hcovers⟩

/-- What covers rows still does when it is read as something else. -/
theorem Results.ReadsAs.covers {guarded : Results} (hreads : guarded.ReadsAs r)
    (h : guarded.Covers spec t spans) : r.Covers spec t spans := by
  refine ⟨hreads.aggregates.trans h.aggregates, ?_, ?_, ?_, ?_⟩
  · rw [hreads.keys]
    exact h.distinct
  · rw [hreads.keys]
    exact h.source
  · rw [hreads.keys]
    exact h.complete
  · rw [hreads.keys]
    intro o k ho j a ha
    obtain ⟨xs, tally, hload, hgathers⟩ := h.tallies o k ho j a ha
    exact ⟨xs, tally, hreads.load j o tally hload, hgathers⟩

/-- **Results can always be read, and are aligned with their keys.**

    Let grouping a table succeed, with any specification, strategy, storage mode, number of threads
    and schedule.  There is a group for every number below the number of groups, and for no other.
    Reading its aggregates, all of them or one by its number, gives the same values, one for each
    aggregate and none past the last; each is the value of a tally gathered from the rows with the
    key values of the group, and from no others.

    If the table has rows, the run on the spans of its partition also succeeds in the layout that
    refuses whoever reads, changes or moves a group that was moved out, or that is past what is
    allocated; and that run has the same keys and the same tallies.  So the run never does this, nor
    does whoever reads its results. -/
theorem results_readable {e : Engine} {schedule : List Nat} (hr : e.group t schedule = .ok r) :
    (∀ i, r.size ≤ i → r.group? i = none) ∧
    (∀ i, i < r.size → ∃ g values, r.group? i = some g ∧
      g.Aligned e.spec t (Span.mk 0 t.rowCount).rows values) ∧
    (t.rowCount ≠ 0 → ∃ spans guarded, partition t.rowCount e.config.threads = .ok spans ∧
      e.groupSpans (Guarded e.config.storage.Layout) t spans schedule = .ok guarded ∧
      guarded.keys = r.keys ∧ ∀ i < r.size, ∀ j < e.spec.aggregates.length, ∃ tally,
        guarded.load j i = .ok tally ∧ r.load j i = .ok tally) := by
  have hpast : ∀ i, r.size ≤ i → r.group? i = none := by
    intro i hi
    rw [Results.group?, Array.getElem?_eq_none hi, Option.map_none]
  by_cases hrows : t.rowCount = 0
  · rw [e.group_of_no_rows hrows] at hr
    cases hr
    exact ⟨hpast, fun i hi => absurd hi (Nat.not_lt_zero i), fun hne => absurd hrows hne⟩
  · have hle := Engine.threads_le_of_group_ok hr hrows
    have hpos : 0 < e.config.threads := Nat.pos_of_ne_zero e.threads_ne_zero
    obtain ⟨spans, hpartition, hlength, hspans, -⟩ := partition_spec hpos hle
    have hne : spans ≠ [] := List.length_pos_iff.mp (by omega)
    obtain ⟨r', guarded, hr', hguarded, hreads, hcovers⟩ :=
      e.exists_guarded_run hne hspans schedule (t := t)
    rw [← Engine.group_of_partition hrows hpartition, hr] at hr'
    cases hr'
    refine ⟨hpast, fun i hi => ?_, fun _ => ⟨spans, guarded, hpartition, hguarded,
      hreads.keys.symm, fun i hi j hj => ?_⟩⟩
    · have hgroup : r.group? i = some ⟨r, i, r.keys[i]⟩ := by
        rw [Results.group?, Array.getElem?_eq_getElem hi, Option.map_some]
      obtain ⟨values, haligned⟩ := (hreads.covers hcovers).exists_aligned hspans hgroup
      exact ⟨_, values, hgroup, haligned⟩
    · have hi' : i < guarded.keys.toList.length := by
        rw [Array.length_toList, ← hreads.keys]
        exact hi
      obtain ⟨_, tally, hload, -⟩ :=
        hcovers.tallies i _ (List.getElem?_eq_getElem hi') j _ (List.getElem?_eq_getElem hj)
      exact ⟨tally, hload, hreads.load j i tally hload⟩

end

/-- Three jobs that are poured into shared groups, the second one first: of the groups of rows 0 and
    2, the one that was donated leaves an empty place behind, and nobody comes back to it. -/
theorem results_readable_sample :
    let e : Engine := ⟨⟨3, .localGlobalMerge, .bucket⟩, .sample, by decide, Or.inl (by decide)⟩
    Table.sample.rowCount ≠ 0 ∧ ∃ r, e.group .sample [1, 0, 2] = .ok r ∧ r.size = 2 ∧
      r.group? 2 = none ∧
      (∃ g values, r.group? 1 = some g ∧ g.Aligned .sample .sample [0, 1, 2] values) ∧
      ∃ guarded, e.groupSpans (Guarded BucketStates) .sample [⟨0, 1⟩, ⟨1, 2⟩, ⟨2, 3⟩] [1, 0, 2] =
        .ok guarded ∧ guarded.keys = r.keys := by
  intro e
  have hrows : Table.sample.rowCount ≠ 0 := by decide
  have hrun : (e.group .sample [1, 0, 2]).toOption.map (·.size) = some 2 := by decide
  cases hr : e.group .sample [1, 0, 2] with
  | error err =>
    rw [hr] at hrun
    cases hrun
  | ok r =>
    rw [hr] at hrun
    have hsize : r.size = 2 := Option.some.inj hrun
    obtain ⟨hpast, hgroups, hguarded⟩ := results_readable hr
    obtain ⟨spans, guarded, hspans, hrun', hkeys, -⟩ := hguarded hrows
    have hcut : partition Table.sample.rowCount 3 = .ok [⟨0, 1⟩, ⟨1, 2⟩, ⟨2, 3⟩] := by rfl
    cases hcut.symm.trans hspans
    exact ⟨hrows, r, rfl, hsize, hpast 2 (Nat.le_of_eq hsize), hgroups 1 (by omega), guarded, hrun',
      hkeys⟩

end Cohort
