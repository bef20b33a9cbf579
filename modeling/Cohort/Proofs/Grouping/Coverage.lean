import Cohort.Proofs.Grouping.LocalMerge
import Cohort.Proofs.Shared.Poured
import Cohort.Proofs.Shared.Scanned
/-
  Whatever the strategy, the results COVER the rows.

  1. **What strategies share.**  `Results.Covers spans` says of results that they have one group per
     tuple of key values, that each stands for the first row of its group in one of the spans, and
     that each tally was gathered from the inputs of the whole group, in parts and in some order.

  2. **Each strategy.**  A job that gathered all rows covers them (`Job.Gathered.covers`), shared
     groups into which jobs were poured do (`Flusher.Poured.covers`), and those of scanners do
     (`Scanner.Scanned.covers`).

  3. **All of them.**  With any admissible number of threads grouping succeeds, and its results
     cover the spans of the partition (`Engine.exists_group_covers`).
-/

namespace Cohort

variable [FloatAddition]

/-- Results that have every group of the rows in some spans once, and nothing else. -/
structure Results.Covers (spec : GroupingSpec) (t : Table) (spans : List Span) (r : Results) :
    Prop where
  aggregates : r.aggregates = spec.aggregates
  distinct : r.keys.toList.Pairwise fun a b => a.values ≠ b.values
  /-- A group stands for the first row that one of the spans has of it. -/
  source : ∀ k ∈ r.keys.toList, ∃ s ∈ spans, k ∈ spec.discovered t s.rows
  complete : ∀ s ∈ spans, ∀ row ∈ s.rows, ∃ k ∈ r.keys.toList, k.values = spec.valuesAt t row
  /-- A tally came from the inputs of the group's rows, folded in parts and merged. -/
  tallies : ∀ o k, r.keys.toList[o]? = some k → ∀ j a, spec.aggregates[j]? = some a →
    ∃ xs tally, r.load j o = .ok tally ∧ a.function.Gathers xs tally ∧
      xs.Perm (a.inputs t (spec.members t (spans.flatMap Span.rows) k.values))

variable {spec : GroupingSpec} {t : Table} {spans : List Span}

omit [FloatAddition] in
/-- The key of a group is the key of its first row in one of the spans that have rows of it. -/
theorem GroupingSpec.exists_span_of_mem_discovered {k : Key}
    (h : k ∈ spec.discovered t (spans.flatMap Span.rows)) :
    ∃ s ∈ spans, k ∈ spec.discovered t s.rows := by
  induction spans with
  | nil => exact absurd h List.not_mem_nil
  | cons s spans ih =>
    rw [List.flatMap_cons, spec.discovered_append] at h
    rcases List.mem_append.mp h with h | h
    · exact ⟨s, List.mem_cons_self, h⟩
    · have hlater : k ∈ spec.discovered t (spans.flatMap Span.rows) := (List.mem_filter.mp h).1
      obtain ⟨s', hs', hk⟩ := ih hlater
      exact ⟨s', List.mem_cons_of_mem s hs', hk⟩

/-! ## One strategy after the other -/

/-- **A job that gathered all rows** covers them. -/
theorem Job.Gathered.covers {σ : Type} [LocalStates σ] [LawfulStates σ] {job : Job σ}
    (h : job.Gathered spec t (spans.flatMap Span.rows)) (groupNames : List String) :
    (Results.ofJob t spec.aggregates groupNames job).Covers spec t spans := by
  have hkeys : job.dictionary.keys.toList = spec.discovered t (spans.flatMap Span.rows) := by
    rw [h.dictionary_eq, Dictionary.keys_ofKeys]
  refine ⟨rfl, ?_, ?_, ?_, ?_⟩
  · show job.dictionary.keys.toList.Pairwise _
    rw [hkeys]
    exact spec.pairwise_discovered t _
  · intro k hk
    have hk' : k ∈ job.dictionary.keys.toList := hk
    rw [hkeys] at hk'
    exact GroupingSpec.exists_span_of_mem_discovered hk'
  · intro s hs row hrow
    show ∃ k ∈ job.dictionary.keys.toList, _
    rw [hkeys]
    exact (spec.exists_mem_discovered_iff t).mpr ⟨row, List.mem_flatMap.mpr ⟨s, hs, hrow⟩, rfl⟩
  · intro o k ho j a ha
    have ho' : job.dictionary.keys.toList[o]? = some k := ho
    rw [hkeys] at ho'
    obtain ⟨tally, hload, hgathers⟩ := h.load_eq ho' ha
    exact ⟨_, tally, hload, hgathers, List.Perm.refl _⟩

/-- **Shared groups into which jobs were poured** cover the rows of the jobs. -/
theorem Flusher.Poured.covers {σ : Type} {h : Flusher.History} {c : Crew (Flusher σ) SharedGroups}
    (hp : Poured spec (fun i => spec.discovered t (Span.rowsAt spans i))
      (fun i => spec.ledger t (Span.rowsAt spans i)) spans.length h c) (groupNames : List String) :
    (Results.ofShared t spec.aggregates groupNames c.shared).Covers spec t spans := by
  refine ⟨rfl, hp.distinct, fun k hk => ?_, fun s hs row hrow => ?_, fun o k ho j a ha => ?_⟩
  · exact (Span.exists_rowsAt_iff fun rows => k ∈ spec.discovered t rows).mp (hp.source k hk)
  · refine (hp.covered _).mpr ((Span.exists_rowsAt_iff fun rows =>
      ∃ k ∈ spec.discovered t rows, k.values = spec.valuesAt t row).mpr ⟨s, hs, ?_⟩)
    exact (spec.exists_mem_discovered_iff t).mpr ⟨row, hrow, rfl⟩
  · have hgathers := hp.gathers ho ha
    rwa [Span.flatMap_rowsAt] at hgathers

/-- **Shared groups into which all rows were scanned** cover them. -/
theorem Scanner.Scanned.covers {h : Scanner.History} {g : SharedGroups}
    (hg : Scanned spec t (Span.rowsAt spans) spans.length h g) (groupNames : List String) :
    (Results.ofShared t spec.aggregates groupNames g).Covers spec t spans := by
  refine ⟨rfl, hg.distinct, fun k hk => ?_, fun s hs row hrow => ?_, fun o k ho j a ha => ?_⟩
  · exact (Span.exists_rowsAt_iff fun rows => k ∈ spec.discovered t rows).mp (hg.source k hk)
  · exact (hg.covered _).mpr ((Span.exists_rowsAt_iff fun rows =>
      ∃ row' ∈ rows, spec.valuesAt t row' = spec.valuesAt t row).mpr ⟨s, hs, row, hrow, rfl⟩)
  · have hgathers := hg.gathers ho ha
    rwa [Span.flatMap_rowsAt] at hgathers

/-! ## All of them -/

namespace Engine

variable {e : Engine} {b : Nat}

section Layout

variable (σ : Type) [LocalStates σ] [LawfulStates σ]

theorem groupLocally_covers (e : Engine) (hne : spans ≠ []) (hspans : Consecutive 0 spans b) :
    ∃ r, e.groupLocally σ t spans = .ok r ∧ r.Covers e.spec t spans := by
  obtain ⟨job, hgathered, hgroup⟩ := e.groupLocally_eq σ hne hspans (t := t)
  rw [← hspans.flatMap_rows] at hgathered
  exact ⟨_, hgroup, hgathered.covers e.groupNames⟩

theorem groupAndFlush_covers (e : Engine) (spans : List Span) (schedule : List Nat) :
    ∃ r, e.groupAndFlush σ t spans schedule = .ok r ∧ r.Covers e.spec t spans := by
  have hfresh : ∀ job ∈ e.jobs σ spans, job.IsFresh e.spec t :=
    fun job hjob => isFresh_of_mem_jobs hjob t
  obtain ⟨jobs, hscan, hall⟩ := Job.mapM_scan (e.jobs σ spans) hfresh
  have hrows := e.rows_jobs σ spans
  rw [groupAndFlush, hscan]
  -- a single job is the result, any other number of them is poured
  by_cases hone : ∃ job, jobs = [job]
  · obtain ⟨job, rfl⟩ := hone
    obtain ⟨fresh, hjobs⟩ : ∃ fresh, e.jobs σ spans = [fresh] :=
      List.length_eq_one_iff.mp hall.length_eq
    rw [hjobs] at hall hrows
    obtain ⟨hshows, -⟩ := (List.forall₂_cons.mp hall).1
    have hgathered : job.Gathered e.spec t (spans.flatMap Span.rows) := by
      rw [← hrows, List.map_singleton, List.flatMap_singleton]
      exact hshows.gathered
    exact ⟨_, rfl, hgathered.covers e.groupNames⟩
  · obtain ⟨c, rest, hflush, hrun, hdone⟩ := Flusher.exists_flushAll hfresh hscan schedule
    obtain ⟨c', hrun', hpoured⟩ := Flusher.run_crew hfresh hscan (schedule ++ rest)
    rw [hrun] at hrun'
    cases hrun'
    obtain ⟨hlength, hkeys, -⟩ := Flusher.shows_of_mapM_scan hfresh hscan
    have hp := hpoured hdone
    rw [funext hkeys, hlength, length_jobs] at hp
    unfold Flusher.ledgerOf at hp
    rw [hrows] at hp
    refine ⟨_, ?_, hp.covers e.groupNames⟩
    dsimp only [bind, Except.bind]
    split
    · exact absurd ⟨_, rfl⟩ hone
    · rw [hflush]
      rfl

end Layout

theorem groupGlobally_covers (e : Engine) (spans : List Span) (schedule : List Nat) :
    ∃ r, e.groupGlobally t spans schedule = .ok r ∧ r.Covers e.spec t spans := by
  obtain ⟨c, h, hscan, hscanned⟩ := Scanner.exists_scanAll
    (KeyEvaluator.isCoherent_create e.spec t) spans schedule
  refine ⟨_, ?_, hscanned.covers e.groupNames⟩
  rw [groupGlobally]
  show (Scanner.scanAll _ _ (.create e.spec.keys e.spec.hashValue) _ _ _ >>= _) = _
  rw [hscan]
  rfl

/-- **Every strategy covers the spans** of a partition, in every layout and with every schedule. -/
theorem groupSpans_covers (e : Engine) (σ : Type) [LocalStates σ] [LawfulStates σ]
    (hne : spans ≠ []) (hspans : Consecutive 0 spans b) (schedule : List Nat) :
    ∃ r, e.groupSpans σ t spans schedule = .ok r ∧ r.Covers e.spec t spans := by
  unfold groupSpans
  cases e.config.strategy with
  | localMerge => exact groupLocally_covers σ e hne hspans
  | localGlobalMerge => exact groupAndFlush_covers σ e spans schedule
  | globalMerge => exact e.groupGlobally_covers spans schedule

/-- **Grouping covers the table**, with any admissible number of threads, by every strategy, in
    every storage mode and with every schedule. -/
theorem exists_group_covers (h : e.config.threads ≤ t.rowCount) (schedule : List Nat) :
    ∃ r spans, e.group t schedule = .ok r ∧ Consecutive 0 spans t.rowCount ∧
      spans.length = e.config.threads ∧ r.Covers e.spec t spans := by
  have hpos : 0 < e.config.threads := Nat.pos_of_ne_zero e.threads_ne_zero
  obtain ⟨spans, hspans, hlength, -, hgroup⟩ := group_eq_groupSpans h
  have hne : spans ≠ [] := List.length_pos_iff.mp (by omega)
  obtain ⟨r, hr, hcovers⟩ :=
    e.groupSpans_covers e.config.storage.Layout hne hspans schedule (t := t)
  exact ⟨r, spans, (hgroup schedule).trans hr, hspans, hlength, hcovers⟩

end Engine
end Cohort
