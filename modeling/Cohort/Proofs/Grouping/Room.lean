import Cohort.Grouping.Engine
import Cohort.Proofs.Grouping.Coverage
import Cohort.Proofs.Job.Room
/-
  Runs never find their arrays full.

  An engine makes a fresh job for each span, scans it and merges what it has scanned, or pours it.
  Scans of fresh jobs and merges of any jobs do without growth, and pouring pushes no groups.  So a
  run in arrays is the same run where pushes make no room (`Engine.groupSpans_unstretched`).
-/

namespace Cohort

open ArrayStates (unstretched)

section

variable [FloatAddition]

namespace Job

variable {spec : GroupingSpec} {t : Table}

theorem mapM_scan_unstretched {jobs : List (Job ArrayStates)}
    (hfresh : ∀ job ∈ jobs, job.IsFresh spec t) :
    jobs.mapM (@scan ArrayStates unstretched spec.aggregates t) =
      jobs.mapM (scan spec.aggregates t) := by
  induction jobs with
  | nil => rfl
  | cons job jobs ih =>
    obtain ⟨hjob, hjobs⟩ := List.forall_mem_cons.mp hfresh
    rw [List.mapM_cons, List.mapM_cons, scan_unstretched hjob, ih hjobs]

theorem mergeLeaf_unstretched {jobs : List (Job ArrayStates)}
    (hfresh : ∀ job ∈ jobs, job.IsFresh spec t) :
    @mergeLeaf ArrayStates unstretched spec.aggregates t jobs =
      mergeLeaf spec.aggregates t jobs := by
  have hmerge : @mergeFrom ArrayStates unstretched spec.aggregates = mergeFrom spec.aggregates :=
    funext fun job => funext fun other => mergeFrom_unstretched job other
  unfold mergeLeaf
  rw [mapM_scan_unstretched hfresh, hmerge]

/-- **Merging up the tree** never makes room but in advance. -/
theorem mergeTree_unstretched {jobs : List (Job ArrayStates)}
    (hfresh : ∀ job ∈ jobs, job.IsFresh spec t) :
    @mergeTree ArrayStates unstretched spec.aggregates t jobs =
      mergeTree spec.aggregates t jobs := by
  fun_induction mergeTree spec.aggregates t jobs with
  | case1 jobs hleaf =>
    rw [@mergeTree.eq_def ArrayStates unstretched, if_pos hleaf]
    exact mergeLeaf_unstretched hfresh
  | case2 jobs hlarge half ihl ihr =>
    rw [@mergeTree.eq_def ArrayStates unstretched, if_neg hlarge]
    dsimp only
    rw [ihl fun job hjob => hfresh job (List.mem_of_mem_take hjob),
      ihr fun job hjob => hfresh job (List.mem_of_mem_drop hjob)]
    simp only [mergeFrom_unstretched]

end Job

namespace Engine

variable (e : Engine) (t : Table) (spans : List Span) (schedule : List Nat)

theorem fresh_jobs : ∀ job ∈ e.jobs ArrayStates spans, job.IsFresh e.spec t :=
  fun _ hjob => isFresh_of_mem_jobs hjob t

theorem groupLocally_unstretched :
    @groupLocally e ArrayStates unstretched t spans = e.groupLocally ArrayStates t spans := by
  have htree := Job.mergeTree_unstretched (e.fresh_jobs t spans)
  unfold groupLocally
  exact congrArg (· >>= _) htree

/-- Pouring does not push, so only the scans matter. -/
theorem groupAndFlush_unstretched :
    @groupAndFlush _ e ArrayStates unstretched t spans schedule =
      e.groupAndFlush ArrayStates t spans schedule := by
  have hscan := Job.mapM_scan_unstretched (e.fresh_jobs t spans)
  unfold groupAndFlush
  exact congrArg (· >>= _) hscan

/-- **A run in arrays** is the same where pushes make no room. -/
theorem groupSpans_unstretched :
    @groupSpans _ e ArrayStates unstretched t spans schedule =
      e.groupSpans ArrayStates t spans schedule := by
  unfold groupSpans
  cases e.config.strategy with
  | localMerge => exact e.groupLocally_unstretched t spans
  | localGlobalMerge => exact e.groupAndFlush_unstretched t spans schedule
  | globalMerge => rfl

/-- With any admissible number of threads the run succeeds, and without growth. -/
theorem exists_group_unstretched (hstorage : e.config.storage = .array)
    (hthreads : e.config.threads ≤ t.rowCount) :
    ∃ spans r, partition t.rowCount e.config.threads = .ok spans ∧ e.group t schedule = .ok r ∧
      @groupSpans _ e ArrayStates unstretched t spans schedule = .ok r := by
  have hpos : 0 < e.config.threads := Nat.pos_of_ne_zero e.threads_ne_zero
  obtain ⟨spans, hpartition, hlength, hspans, -⟩ := partition_spec hpos hthreads
  have hne : spans ≠ [] := List.length_pos_iff.mp (by omega)
  obtain ⟨r, hr, -⟩ := e.groupSpans_covers ArrayStates hne hspans schedule (t := t)
  have hgroup := group_of_partition (by omega) hpartition schedule
  rw [hstorage] at hgroup
  exact ⟨spans, r, hpartition, hgroup.trans hr, (e.groupSpans_unstretched t spans schedule).trans hr⟩

end Engine

/-- **Arrays are never indexed past their end, and runs never grow them by a push.**

    1. Make arrays of any number of aggregates and any capacity, and carry out a program of
       operations that change groups which are there by then.  It succeeds, all arrays have one
       capacity, which is at least the number of groups, so every place of a group is there.
    2. Neither a push nor making room changes what is read of any group.
    3. The scan of a fresh job succeeds, finds no more groups than rows, and has room for a further
       group before every row.
    4. Let two jobs have come from fresh jobs by scans and any tree of merges.  To merge them
       succeeds, room is made in advance for all groups of the other one, and there is room for a
       further group before every group that is taken over.
    5. So grouping in arrays is the same where pushes make no room, in every run; and there a push
       that finds the arrays full would be refused the first row of the new group. -/
theorem arrays_have_room :
    (∀ n maxGroups program, ArrayStates.Op.AllInRange 0 program →
      ∃ s, ArrayStates.run n maxGroups program = .ok s ∧ s.Sound n ∧
        ∀ o < s.groups, ∀ a ∈ s.arrays, o < a.capacity) ∧
    (∀ (s : ArrayStates) (k o : Nat), (LocalStates.push s).group o = s.group o ∧
      (LocalStates.reserve k s).group o = s.group o) ∧
    (∀ spec t (job : Job ArrayStates), job.IsFresh spec t →
      ∃ job', Job.ScansWithin spec.aggregates t job job') ∧
    (∀ spec t (job other : Job ArrayStates), job.Treed spec t → other.Treed spec t →
      ∃ job', Job.MergesWithin spec.aggregates job other job') ∧
    (∀ (e : Engine) (t : Table) (schedule : List Nat), e.config.storage = .array →
      e.config.threads ≤ t.rowCount →
      ∃ spans r, partition t.rowCount e.config.threads = .ok spans ∧ e.group t schedule = .ok r ∧
        @Engine.groupSpans _ e ArrayStates unstretched t spans schedule = .ok r) ∧
    (∀ (s : ArrayStates) (aggregates : List Aggregate) (t : Table) (row : Nat),
      s.groups = s.capacity → s.arrays ≠ [] → aggregates ≠ [] →
      @LocalStates.update ArrayStates unstretched aggregates t row s.groups
        (@LocalStates.push ArrayStates unstretched s) =
          .error (.outOfRange s.groups s.capacity)) := by
  refine ⟨fun n maxGroups program hprogram => ?_, fun s k o => ⟨s.group_pushGroup o,
      s.group_ensure _ o⟩, fun spec t job hfresh => Job.exists_scansWithin hfresh,
    fun spec t job other hjob hother => Job.exists_mergesWithin hjob hother,
    fun e t schedule => e.exists_group_unstretched t schedule,
    fun s aggregates t row hfull harrays hne =>
      ArrayStates.update_unstretched_of_full hfull harrays hne t row⟩
  obtain ⟨s, hs, hsound⟩ := ArrayStates.Sound.run n maxGroups hprogram
  exact ⟨s, hs, hsound, fun o ho a ha => hsound.lt_capacity ho ha⟩

end

/-- Arrays without room at first, of which the third group makes them four places large; and two jobs
    of one and two rows, whose merge has room for both sides. -/
theorem arrays_have_room_sample :
    let aggregates := GroupingSpec.sample.aggregates
    let job (s : Span) : Job ArrayStates :=
      .create 0 s (.create GroupingSpec.sample.keys GroupingSpec.sample.hashValue) 2
    let e : Engine := ⟨⟨2, .localMerge, .array⟩, .sample, by decide, Or.inl (by decide)⟩
    let program : List ArrayStates.Op := [.push, .update aggregates .sample 0 0, .push, .push,
      .append aggregates (LocalStates.create 2 5) 7, .update aggregates .sample 1 3]
    (∃ s, ArrayStates.run 2 0 program = .ok s ∧ s.Sound 2 ∧ s.sizes = [4, 4]) ∧
    (∃ left right merged, Job.ScansWithin aggregates .sample (job ⟨0, 1⟩) left ∧
      Job.ScansWithin aggregates .sample (job ⟨1, 3⟩) right ∧
      Job.MergesWithin aggregates left right merged) ∧
    (∃ spans r, partition 3 2 = .ok spans ∧ e.group .sample = .ok r ∧
      @Engine.groupSpans _ e ArrayStates unstretched .sample spans [] = .ok r) ∧
    @LocalStates.update ArrayStates unstretched aggregates .sample 0 0
      (@LocalStates.push ArrayStates unstretched (LocalStates.create 2 0)) =
        .error (.outOfRange 0 0) := by
  intro aggregates job e program
  obtain ⟨hprograms, -, hscans, hmerges, hruns, hteeth⟩ := arrays_have_room
  have hfresh : ∀ s, (job s).IsFresh .sample .sample := Job.isFresh_create _ _ 0
  obtain ⟨left, hleft⟩ := hscans .sample .sample (job ⟨0, 1⟩) (hfresh _)
  obtain ⟨right, hright⟩ := hscans .sample .sample (job ⟨1, 3⟩) (hfresh _)
  obtain ⟨merged, hmerged⟩ := hmerges .sample .sample left right (.scan (hfresh _) hleft.run)
    (.scan (hfresh _) hright.run)
  obtain ⟨s, hs, hsound, -⟩ := hprograms 2 0 program (by decide)
  refine ⟨⟨s, hs, hsound, ?_⟩, ⟨left, right, merged, hleft, hright, hmerged⟩,
    hruns e .sample [] rfl (by decide),
    hteeth (LocalStates.create 2 0) aggregates .sample 0 rfl (by decide) (by decide)⟩
  have hsizes : (ArrayStates.run 2 0 program).toOption.map (·.sizes) = some [4, 4] := by decide
  rw [hs] at hsizes
  exact Option.some.inj hsizes

end Cohort
