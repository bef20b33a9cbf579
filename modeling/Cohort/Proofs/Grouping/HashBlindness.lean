import Cohort.Proofs.Grouping.Reading
import Cohort.Proofs.Shared.Twins
/-
  The hash of key values NEVER influences an answer.

  1. **Two runs.**  One specification is run with two hashes of key values, on the same table, by the
     same configuration and under the same schedule.  Everything the two runs do is in lockstep
     (`Engine.group_twins`): not only do they agree at the end, every step of the one is the step of
     the other, and an error of the one is the same error of the other.

  2. **Groups.**  What there is to know of a group but for its hash is its `content`.  The two runs
     have groups of the same content.  Workers share groups without an order of their own, so the
     order is said to be the same only where one job is the result.

  3. **Collisions.**  Whatever the hash, a constant one included, different groups have different key
     values and every row has a group with its key values (`Results.Separates`).
-/

namespace Cohort

/-! ## Results -/

/-- What there is to know of a group but for its hash: the row that stands for it, its key values,
    and its tallies. -/
def Group.content (g : Group) : Nat × List Scalar × (Nat → Except Error Tally) :=
  (g.rowIndex, g.keyValues, fun number => g.results.load number g.ordinal)

/-- Results that differ in the order of groups and in hashes at most. -/
structure Results.DifferInHashes (h h' : Scalar → UInt64) (r r' : Results) : Prop where
  table : r.table = r'.table
  aggregates : r.aggregates = r'.aggregates
  groupNames : r.groupNames = r'.groupNames
  groups : (r.groups.map Group.content).Perm (r'.groups.map Group.content)
  /-- Keys carry the hashes of their own run. -/
  hash : ∀ g ∈ r.groups, g.key.hash = Hash.ofValues h g.keyValues
  hash' : ∀ g ∈ r'.groups, g.key.hash = Hash.ofValues h' g.keyValues

/-- Results that tell rows apart by their key values and by nothing else. -/
structure Results.Separates (spec : GroupingSpec) (t : Table) (r : Results) : Prop where
  /-- Rows of different groups have different key values, -/
  distinct : r.groups.Pairwise fun a b => a.keyValues ≠ b.keyValues
  /-- and every row has a group. -/
  complete : ∀ row < t.rowCount, ∃ g ∈ r.groups, g.keyValues = spec.valuesAt t row

/-- Results with twin keys, ordinal by ordinal, and the same tallies. -/
structure Results.Twins (h h' : Scalar → UInt64) (r r' : Results) : Prop where
  table : r.table = r'.table
  aggregates : r.aggregates = r'.aggregates
  groupNames : r.groupNames = r'.groupNames
  keys : List.Forall₂ (Key.Twins h h') r.keys.toList r'.keys.toList
  load : r.load = r'.load

namespace Results

variable {h h' : Scalar → UInt64} {r r' : Results} {spec : GroupingSpec} {t : Table}

theorem Twins.symm (hr : r.Twins h h' r') : r'.Twins h' h r :=
  ⟨hr.table.symm, hr.aggregates.symm, hr.groupNames.symm,
    (hr.keys.imp fun _ _ hk => hk.symm).flip, hr.load.symm⟩

/-- Twins have the same groups in the same order. -/
theorem Twins.map_content (hr : r.Twins h h' r') :
    r.groups.map Group.content = r'.groups.map Group.content := by
  have hcontent : List.Forall₂ Eq (r.groups.map Group.content) (r'.groups.map Group.content) := by
    rw [groups, groups, List.map_map, List.map_map]
    refine List.rel_map (fun p p' hp => ?_) (forall₂_zipIdx hr.keys 0)
    obtain ⟨hkey, hordinal⟩ := hp
    show (p.1.row, p.1.values, fun number => r.load number p.2) =
      (p'.1.row, p'.1.values, fun number => r'.load number p'.2)
    rw [hkey.row, hkey.values, hordinal, hr.load]
  rwa [List.forall₂_eq_eq_eq] at hcontent

/-- The hash of a group is that of its values, and so tells nothing more than these. -/
theorem Twins.hash_eq (hr : r.Twins h h' r') {g : Group} (hg : g ∈ r.groups) :
    g.key.hash = Hash.ofValues h g.keyValues := by
  obtain ⟨-, hkey⟩ := mem_groups_iff.mp hg
  obtain ⟨_, -, htwins⟩ := getElem?_of_forall₂ hr.keys.flip hkey
  exact htwins.hash

/-- So twins differ in hashes at most. -/
theorem Twins.differInHashes (hr : r.Twins h h' r') : r.DifferInHashes h h' r' :=
  ⟨hr.table, hr.aggregates, hr.groupNames, .of_eq hr.map_content, fun _ hg => hr.hash_eq hg,
    fun _ hg => hr.symm.hash_eq hg⟩

/-- Jobs that are twins have results that are. -/
theorem twins_ofJob {σ : Type} [LocalStates σ] {job job' : Job σ}
    (hjob : job.Twins spec t h h' job') (aggregates : List Aggregate) (groupNames : List String) :
    (ofJob t aggregates groupNames job).Twins h h' (ofJob t aggregates groupNames job') :=
  ⟨rfl, rfl, rfl, hjob.dictionary.keys, congrArg LocalStates.load hjob.states⟩

/-- So have shared groups. -/
theorem twins_ofShared {g g' : SharedGroups} (hg : SharedGroups.Twins h h' g g') (t : Table)
    (aggregates : List Aggregate) (groupNames : List String) :
    (ofShared t aggregates groupNames g).Twins h h' (ofShared t aggregates groupNames g') :=
  ⟨rfl, rfl, rfl, hg.dictionary.keys, hg.load_eq⟩

end Results

/-! ## Runs -/

/-- The engine with another hash of key values. -/
def Engine.hashedBy (e : Engine) (h : Scalar → UInt64) : Engine :=
  ⟨e.config, e.spec.hashedBy h, e.threads_ne_zero, e.nonempty⟩

namespace Engine

variable (e : Engine) (t : Table) (h h' : Scalar → UInt64)

/-- The workers of the two runs start out as twins, span by span. -/
theorem twins_jobs (σ : Type) [LocalStates σ] (spans : List Span) :
    List.Forall₂ (Job.Twins e.spec t h h') ((e.hashedBy h).jobs σ spans)
      ((e.hashedBy h').jobs σ spans) :=
  List.rel_map (fun p _ hp => hp ▸ Job.twins_create e.spec t h h' p.2 p.1 _)
    (List.forall₂_same.mpr fun _ _ => rfl)

/-- Private dictionaries that are merged up a tree. -/
theorem groupLocally_twins (σ : Type) [LocalStates σ] (spans : List Span) :
    Lockstep (Results.Twins h h') ((e.hashedBy h).groupLocally σ t spans)
      ((e.hashedBy h').groupLocally σ t spans) :=
  (Job.mergeTree_twins (e.twins_jobs t h h' σ spans)).bind fun _ _ hjob =>
    .ok (Results.twins_ofJob hjob _ _)

variable [FloatAddition]

/-- Private dictionaries that are poured into a shared one. -/
theorem groupAndFlush_twins (σ : Type) [LocalStates σ] (spans : List Span)
    (schedule : List Nat) :
    Lockstep (Results.Twins h h') ((e.hashedBy h).groupAndFlush σ t spans schedule)
      ((e.hashedBy h').groupAndFlush σ t spans schedule) := by
  refine (Lockstep.mapM (fun _ _ hjob => hjob.scan) (e.twins_jobs t h h' σ spans)).bind ?_
  intro jobs jobs' hjobs
  have hflush : Lockstep (Results.Twins h h')
      (Flusher.flushAll e.spec.aggregates schedule jobs .empty >>= fun crew =>
        .ok (Results.ofShared t e.spec.aggregates e.groupNames crew.shared))
      (Flusher.flushAll e.spec.aggregates schedule jobs' .empty >>= fun crew =>
        .ok (Results.ofShared t e.spec.aggregates e.groupNames crew.shared)) :=
    (Flusher.flushAll_twins hjobs _ schedule).bind fun _ _ hcrew =>
      .ok (Results.twins_ofShared hcrew.shared t _ _)
  -- a single job is the result, any other number of them is poured
  cases hjobs with
  | nil => exact hflush
  | cons hjob hrest =>
    cases hrest with
    | nil => exact .ok (Results.twins_ofJob hjob _ _)
    | cons hnext hrest => exact hflush

/-- A shared dictionary from the first row on. -/
theorem groupGlobally_twins (spans : List Span) (schedule : List Nat) :
    Lockstep (Results.Twins h h') ((e.hashedBy h).groupGlobally t spans schedule)
      ((e.hashedBy h').groupGlobally t spans schedule) :=
  (Scanner.scanAll_twins (KeyEvaluator.twins_create e.spec t h h') _ schedule spans).bind
    fun _ _ hcrew => .ok (Results.twins_ofShared hcrew.shared t _ _)

/-- **Whatever the strategy**, the two runs are in lockstep on the same spans. -/
theorem groupSpans_twins (σ : Type) [LocalStates σ] (spans : List Span)
    (schedule : List Nat) :
    Lockstep (Results.Twins h h') ((e.hashedBy h).groupSpans σ t spans schedule)
      ((e.hashedBy h').groupSpans σ t spans schedule) := by
  have hstrategy : ∀ h, (e.hashedBy h).config.strategy = e.config.strategy := fun _ => rfl
  rw [groupSpans, groupSpans, hstrategy, hstrategy]
  cases e.config.strategy with
  | localMerge => exact e.groupLocally_twins t h h' σ spans
  | localGlobalMerge => exact e.groupAndFlush_twins t h h' σ spans schedule
  | globalMerge => exact e.groupGlobally_twins t h h' spans schedule

/-- **The two runs are in lockstep**, from the first row to the results. -/
theorem group_twins (schedule : List Nat) :
    Lockstep (Results.Twins h h') ((e.hashedBy h).group t schedule)
      ((e.hashedBy h').group t schedule) := by
  rw [group, group]
  by_cases hrows : t.rowCount = 0
  · rw [if_pos hrows, if_pos hrows]
    exact .ok ⟨rfl, rfl, rfl, .nil, rfl⟩
  · rw [if_neg hrows, if_neg hrows]
    refine (Lockstep.self (partition t.rowCount e.config.threads)).bind fun spans _ hspans => ?_
    cases hspans
    have hstorage : ∀ h, (e.hashedBy h).config.storage = e.config.storage := fun _ => rfl
    rw [hstorage, hstorage]
    cases e.config.storage with
    | bucket => exact e.groupSpans_twins t h h' BucketStates spans schedule
    | list => exact e.groupSpans_twins t h h' ListStates spans schedule
    | array => exact e.groupSpans_twins t h h' ArrayStates spans schedule

/-- **Rows are told apart by their key values**, whatever the hash. -/
theorem separates_of_group_ok {e : Engine} {t : Table} {schedule : List Nat} {r : Results}
    (hr : e.group t schedule = .ok r) : r.Separates e.spec t := by
  by_cases hrows : t.rowCount = 0
  · rw [group_of_no_rows e hrows] at hr
    cases hr
    exact ⟨.nil, fun row hrow => absurd hrow (by omega)⟩
  · obtain ⟨r', spans, hr', hspans, -, hcovers⟩ :=
      exists_group_covers (threads_le_of_group_ok hr hrows) schedule
    rw [hr] at hr'
    cases hr'
    refine ⟨?_, fun row hrow => ?_⟩
    · have hkeys := hcovers.distinct
      rwa [← r.map_key_groups, List.pairwise_map] at hkeys
    · have hmem : row ∈ spans.flatMap Span.rows := by
        rw [hspans.flatMap_rows]
        exact Span.mem_rows.mpr ⟨Nat.zero_le row, hrow⟩
      obtain ⟨s, hs, hrow'⟩ := List.mem_flatMap.mp hmem
      obtain ⟨k, hk, hvalues⟩ := hcovers.complete s hs row hrow'
      rw [← r.map_key_groups] at hk
      obtain ⟨g, hg, rfl⟩ := List.mem_map.mp hk
      exact ⟨g, hg, hvalues⟩

end Engine

/-- **The hash of key values never influences the answer.**

    Whatever the two hash functions, constant ones included, the same engine on the same table under
    the same schedule fails with the same error or succeeds in both runs, and succeeds if it should.
    If it does, the groups have the same representative rows, key values and tallies, and each key
    carries the hash of its own run; where a job is the result, the groups are in the same order.
    In both runs rows of different key values are in different groups, and rows of equal ones are
    not split. -/
theorem group_ignores_hash [FloatAddition] (e : Engine) (t : Table) (h h' : Scalar → UInt64)
    (schedule : List Nat) :
    Lockstep (fun r r' => r.DifferInHashes h h' r' ∧
        (e.config.strategy = .localMerge ∨
          (e.config.threads = 1 ∧ e.config.strategy = .localGlobalMerge) →
            r.groups.map Group.content = r'.groups.map Group.content) ∧
        r.Separates e.spec t ∧ r'.Separates e.spec t)
      ((e.hashedBy h).group t schedule) ((e.hashedBy h').group t schedule) ∧
    (t.rowCount = 0 ∨ e.config.threads ≤ t.rowCount →
      ∃ r, (e.hashedBy h).group t schedule = .ok r) := by
  constructor
  · have hseparates : ∀ {h r}, (e.hashedBy h).group t schedule = .ok r → r.Separates e.spec t := by
      intro h r hr
      obtain ⟨hdistinct, hcomplete⟩ := Engine.separates_of_group_ok hr
      exact ⟨hdistinct, hcomplete⟩
    refine (e.group_twins t h h' schedule).imp_of_ok fun r r' htwins hr hr' => ?_
    exact ⟨htwins.differInHashes, fun _ => htwins.map_content, hseparates hr, hseparates hr'⟩
  · rintro (hrows | hthreads)
    · exact ⟨_, (e.hashedBy h).group_of_no_rows hrows schedule⟩
    · obtain ⟨r, -, hr, -⟩ := (e.hashedBy h).exists_group_covers hthreads schedule
      exact ⟨r, hr⟩

end Cohort
