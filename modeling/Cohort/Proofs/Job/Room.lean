import Cohort.Proofs.Job.Built
import Cohort.Proofs.States.Room
/-
  Jobs always find ROOM in their arrays.

  A job is made with room for as many groups as it has rows, and it makes room for all groups of a
  job before it takes any of them over.

  1. **Step and run.**  A row, or a group taken over, uses up room for one group at most, and no
     array grows (`takesOne_scanRow`, `takesOne_mergeGroup`).  So there is always room left for
     whatever is still to come.

  2. **Without growth.**  So scans and merges are the same where pushes make no room
     (`scan_unstretched`, `mergeFrom_unstretched`).  Of a merge this holds whatever the two jobs are,
     since it makes the room itself.

  3. **Trees.**  `Treed` jobs come from fresh jobs, each of which was scanned, by merges in any
     order.  Their scans and merges succeed, and the groups they find are bounded by the rows and by
     the groups of both sides.
-/

namespace Cohort.Job

open ArrayStates (unstretched)

variable [FloatAddition] {aggregates : List Aggregate} {t : Table} {job job' : Job ArrayStates}
variable {k : Nat}

/-! ## Scans -/

/-- **A row** uses up room for one group at most. -/
theorem takesOne_scanRow (aggregates : List Aggregate) (t : Table) :
    ArrayStates.TakesOne (·.states) (scanRow (σ := ArrayStates) aggregates t) := by
  intro k job row job' h hscan
  rw [scanRow] at hscan
  generalize job.dictionary.findOrInsert job.evaluator t row = found at hscan
  obtain ⟨⟨ordinal, isNew⟩, dictionary, evaluator⟩ := found
  obtain ⟨states, hupdate, hjob'⟩ := bind_eq_ok_iff.mp hscan
  cases hjob'
  have hsame := ArrayStates.sameRoom_of_update hupdate
  cases isNew with
  | true =>
    obtain ⟨hpushed, hsizes⟩ := h.pushGroup
    exact ⟨hpushed.sameRoom hsame, hsame.sizes.trans hsizes⟩
  | false => exact ⟨(h.mono (Nat.le_succ k)).sameRoom hsame, hsame.sizes⟩

theorem scanRow_unstretched (h : job.states.HasRoom (k + 1)) (row : Nat) :
    @scanRow ArrayStates unstretched aggregates t job row = job.scanRow aggregates t row := by
  unfold scanRow
  rw [ArrayStates.push_unstretched h]
  rfl

/-- A fresh job has room for its rows. -/
theorem IsFresh.hasRoom {spec : GroupingSpec} (h : job.IsFresh spec t) :
    job.states.HasRoom job.rows.rows.length := by
  rw [Span.length_rows, h.untouched]
  exact ArrayStates.hasRoom_create _ _

/-- **The scan of a fresh job** never makes room. -/
theorem scan_unstretched {spec : GroupingSpec} (h : job.IsFresh spec t) :
    @scan ArrayStates unstretched aggregates t job = job.scan aggregates t :=
  (takesOne_scanRow aggregates t).foldlM_congr (fun _ _ row hroom => scanRow_unstretched hroom row)
    h.hasRoom

/-! ## Merges -/

/-- **A group that is taken over** uses up room for one group at most. -/
theorem takesOne_mergeGroup (aggregates : List Aggregate) :
    ArrayStates.TakesOne (·.1.states) (mergeGroup (σ := ArrayStates) aggregates) := by
  intro k s entry s' h hmerge
  obtain ⟨job, source⟩ := s
  rw [mergeGroup] at hmerge
  dsimp only at hmerge
  cases hfind : job.dictionary.find entry.1 with
  | some ordinal =>
    rw [hfind] at hmerge
    obtain ⟨states, hstates, hs'⟩ := bind_eq_ok_iff.mp hmerge
    cases hs'
    have hsame := ArrayStates.sameRoom_of_mergeGroup hstates
    exact ⟨(h.mono (Nat.le_succ k)).sameRoom hsame, hsame.sizes⟩
  | none =>
    rw [hfind] at hmerge
    obtain ⟨⟨ordinal, states, rest⟩, happend, hs'⟩ := bind_eq_ok_iff.mp hmerge
    cases hs'
    have hsame := ArrayStates.sameRoom_of_append happend
    obtain ⟨hpushed, hsizes⟩ := h.pushGroup
    exact ⟨hpushed.sameRoom hsame, hsame.sizes.trans hsizes⟩

theorem mergeGroup_unstretched {s : Job ArrayStates × ArrayStates} (h : s.1.states.HasRoom (k + 1))
    (entry : Key × Nat) :
    @mergeGroup ArrayStates unstretched aggregates s entry = mergeGroup aggregates s entry := by
  obtain ⟨job, source⟩ := s
  unfold mergeGroup
  dsimp only
  cases job.dictionary.find entry.1 with
  | some ordinal => rfl
  | none =>
    dsimp only
    rw [ArrayStates.append_unstretched h]

/-- A job that has made room for all groups of another one. -/
def withRoomFor (job other : Job ArrayStates) : Job ArrayStates :=
  { job with states := LocalStates.reserve other.size job.states }

omit [FloatAddition] in
theorem length_entries (other : Job ArrayStates) :
    other.dictionary.keys.toList.zipIdx.length = other.size := by
  rw [List.length_zipIdx]
  exact Array.length_toList

theorem hasRoom_withRoomFor (job other : Job ArrayStates) :
    (job.withRoomFor other).states.HasRoom other.dictionary.keys.toList.zipIdx.length := by
  rw [length_entries]
  exact job.states.hasRoom_ensure other.size

/-- After room was made, no array grows in a merge. -/
theorem sizes_of_mergeFrom {other : Job ArrayStates}
    (h : job.mergeFrom aggregates other = .ok job') :
    job'.states.sizes = (job.withRoomFor other).states.sizes := by
  rw [mergeFrom] at h
  split at h
  · cases h
  · obtain ⟨merged, hmerged, hjob'⟩ := bind_eq_ok_iff.mp h
    cases hjob'
    exact ((takesOne_mergeGroup aggregates).foldlM (k := 0) (job.hasRoom_withRoomFor other) hmerged).2

/-- **A merge** never makes room but in advance, whatever the jobs. -/
theorem mergeFrom_unstretched (job other : Job ArrayStates) :
    @mergeFrom ArrayStates unstretched aggregates job other = job.mergeFrom aggregates other := by
  have hgroups : other.dictionary.keys.toList.zipIdx.foldlM
        (@mergeGroup ArrayStates unstretched aggregates) (job.withRoomFor other, other.states) =
      other.dictionary.keys.toList.zipIdx.foldlM (mergeGroup aggregates)
        (job.withRoomFor other, other.states) :=
    (takesOne_mergeGroup aggregates).foldlM_congr
      (fun _ _ entry hroom => mergeGroup_unstretched hroom entry) (job.hasRoom_withRoomFor other)
  unfold mergeFrom
  split
  · rfl
  · exact congrArg (· >>= fun merged => .ok { merged.1 with rows := job.rows.hull other.rows }) hgroups

/-! ## Trees -/

/-- `Treed spec t job`: the job came from fresh jobs, each of which was scanned, by merging jobs that
    came about like this. -/
inductive Treed (spec : GroupingSpec) (t : Table) : Job ArrayStates → Prop
  | scan {job job' : Job ArrayStates} : job.IsFresh spec t →
      job.scan spec.aggregates t = .ok job' → Treed spec t job'
  | mergeFrom {job other job' : Job ArrayStates} : Treed spec t job → Treed spec t other →
      job.mergeFrom spec.aggregates other = .ok job' → Treed spec t job'

variable {spec : GroupingSpec} {other : Job ArrayStates}

theorem Treed.amassed (h : job.Treed spec t) : ∃ rows, job.Amassed spec t rows := by
  have hbuilt : ∃ rows, job.Built spec t rows := by
    induction h with
    | scan hfresh hscan => exact ⟨_, .scan (.fresh hfresh) hscan⟩
    | mergeFrom _ _ hmerge ih ih' =>
      obtain ⟨l, hl⟩ := ih
      obtain ⟨m, hm⟩ := ih'
      exact ⟨l ++ m, .mergeFrom hl hm hmerge⟩
  obtain ⟨rows, hrows⟩ := hbuilt
  exact ⟨rows, hrows.amassed⟩

/-- The states have the groups of the dictionary. -/
theorem Shows.groups_eq {ks : List Key} {τ : Ledger} (h : job.Shows spec t ks τ) :
    job.states.groups = job.size := by
  have hsize : job.states.groups = (spec.account τ ks).length := LawfulStates.size_eq h.states
  rw [hsize, h.size_eq]
  exact List.length_map ..

/-- A scan from one job to another that has room for a group before every row. -/
structure ScansWithin (aggregates : List Aggregate) (t : Table) (job job' : Job ArrayStates) :
    Prop where
  run : job.scan aggregates t = .ok job'
  /-- There are no more groups than rows. -/
  size_le : job'.size ≤ job.rows.length
  groups : job'.states.groups = job'.size
  /-- Every array has a place for each row, and has not grown. -/
  sizes : job'.states.sizes = List.replicate aggregates.length job.rows.length
  room : ∀ before row after current, job.rows.rows = before ++ row :: after →
    before.foldlM (scanRow aggregates t) job = .ok current → current.states.HasRoom 1

/-- A merge of two jobs that has room for a group before every group that is taken over. -/
structure MergesWithin (aggregates : List Aggregate) (job other job' : Job ArrayStates) : Prop where
  run : job.mergeFrom aggregates other = .ok job'
  /-- There are no more groups than on both sides. -/
  size_le : job'.size ≤ job.size + other.size
  groups : job'.states.groups = job'.size
  /-- Room was made for all groups of the other side, and no more of it later. -/
  reserved : (job.withRoomFor other).states.HasRoom other.size
  sizes : job'.states.sizes = (job.withRoomFor other).states.sizes
  room : ∀ before entry after current,
    other.dictionary.keys.toList.zipIdx = before ++ entry :: after →
    before.foldlM (mergeGroup aggregates) (job.withRoomFor other, other.states) = .ok current →
    current.1.states.HasRoom 1

/-- **The scan of a fresh job** succeeds and stays within its arrays. -/
theorem exists_scansWithin (h : job.IsFresh spec t) :
    ∃ job', ScansWithin spec.aggregates t job job' := by
  obtain ⟨job', hscan, hshows, -⟩ := scan_of_isFresh h
  have hstep := takesOne_scanRow spec.aggregates t
  refine ⟨job', hscan, ?_, hshows.groups_eq, ?_, fun before row after current hrows hcurrent => ?_⟩
  · rw [hshows.size_eq, ← Span.length_rows, GroupingSpec.discovered, List.length_map]
    exact firsts_sublist _ |>.length_le
  · rw [(hstep.foldlM (k := 0) h.hasRoom hscan).2, h.untouched]
    exact List.map_replicate
  · exact hstep.hasRoom_before (hrows ▸ h.hasRoom) hcurrent

/-- **A merge of two jobs from a tree** succeeds and stays within the room it made. -/
theorem exists_mergesWithin (h : job.Treed spec t) (hother : other.Treed spec t) :
    ∃ job', MergesWithin spec.aggregates job other job' := by
  obtain ⟨_, τ, hshows, -⟩ := h.amassed
  obtain ⟨_, υ, hshows', -⟩ := hother.amassed
  obtain ⟨job', τ', hmerge, hmerged, -, -⟩ := hshows.mergeFrom hshows'
  refine ⟨job', hmerge, ?_, hmerged.groups_eq, job.states.hasRoom_ensure other.size,
    sizes_of_mergeFrom hmerge, fun before entry after current hentries hcurrent => ?_⟩
  · rw [hmerged.size_eq, hshows.size_eq, hshows'.size_eq, List.length_append]
    exact Nat.add_le_add_left (List.length_filter_le _ _) _
  · have hroom := job.hasRoom_withRoomFor other
    rw [hentries] at hroom
    exact (takesOne_mergeGroup spec.aggregates).hasRoom_before (g := (job.withRoomFor other,
      other.states)) hroom hcurrent

end Cohort.Job
