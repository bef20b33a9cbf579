import Cohort.Job.MergeTree
import Cohort.Proofs.Key.Twins
/-
  Jobs of two runs that hash key values differently are TWINS all the time.

  Twin jobs have twin dictionaries and the SAME states: an ordinal means the same group in both, so
  every operation on states is asked for the same thing.  Scanning a row, taking over a group and
  merging up the tree are in lockstep, errors included; nothing is asked of the layout.
-/

namespace Cohort

/-- Jobs that differ in the hashes of their keys at most. -/
structure Job.Twins {σ : Type} (spec : GroupingSpec) (t : Table) (h h' : Scalar → UInt64)
    (job job' : Job σ) : Prop where
  number : job.number = job'.number
  rows : job.rows = job'.rows
  aggregateCount : job.aggregateCount = job'.aggregateCount
  evaluator : job.evaluator.Twins spec t h h' job'.evaluator
  dictionary : job.dictionary.Twins h h' job'.dictionary
  states : job.states = job'.states

/-- A key with its ordinal, in both runs. -/
abbrev Key.TwinsAt (h h' : Scalar → UInt64) (entry entry' : Key × Nat) : Prop :=
  entry.1.Twins h h' entry'.1 ∧ entry.2 = entry'.2

namespace Job

variable {σ : Type} [LocalStates σ]
variable {spec : GroupingSpec} {t : Table} {h h' : Scalar → UInt64}
variable {job job' other other' : Job σ} {jobs jobs' : List (Job σ)}

theorem twins_create (spec : GroupingSpec) (t : Table) (h h' : Scalar → UInt64) (number : Nat)
    (rows : Span) (aggregateCount : Nat) :
    (Job.create number rows (.create spec.keys h) aggregateCount : Job σ).Twins spec t h h'
      (.create number rows (.create spec.keys h') aggregateCount) :=
  ⟨rfl, rfl, rfl, KeyEvaluator.twins_create spec t h h', Dictionary.twins_empty h h', rfl⟩

/-! ## Scanning -/

/-- A row falls into the same group of both jobs, or opens one in both. -/
theorem Twins.scanRow (hjob : job.Twins spec t h h' job') (row : Nat) :
    Lockstep (Twins spec t h h') (job.scanRow spec.aggregates t row)
      (job'.scanRow spec.aggregates t row) := by
  obtain ⟨hwhere, hdictionary, hevaluator⟩ := hjob.dictionary.findOrInsert hjob.evaluator row
  rw [Job.scanRow, Job.scanRow, ← hjob.states]
  generalize job.dictionary.findOrInsert job.evaluator t row = found at *
  generalize job'.dictionary.findOrInsert job'.evaluator t row = found' at *
  obtain ⟨⟨ordinal, isNew⟩, d, ev⟩ := found
  obtain ⟨_, d', ev'⟩ := found'
  cases hwhere
  refine (Lockstep.self _).bind fun states _ hstates => .ok ?_
  exact ⟨hjob.number, hjob.rows, hjob.aggregateCount, hevaluator, hdictionary, hstates⟩

theorem Twins.scan (hjob : job.Twins spec t h h' job') :
    Lockstep (Twins spec t h h') (job.scan spec.aggregates t) (job'.scan spec.aggregates t) := by
  rw [Job.scan, Job.scan, hjob.rows]
  exact Lockstep.foldlM (fun _ _ row _ htwins hrow => hrow ▸ htwins.scanRow row)
    (List.forall₂_same.mpr fun _ _ => rfl) hjob

/-! ## Merging -/

/-- A job with the states that are being taken over, in both runs. -/
abbrev TwinsWith (spec : GroupingSpec) (t : Table) (h h' : Scalar → UInt64)
    (s s' : Job σ × σ) : Prop := s.1.Twins spec t h h' s'.1 ∧ s.2 = s'.2

theorem TwinsWith.mergeGroup {s s' : Job σ × σ} (hs : TwinsWith spec t h h' s s')
    {entry entry' : Key × Nat} (hentry : Key.TwinsAt h h' entry entry') :
    Lockstep (TwinsWith spec t h h') (mergeGroup spec.aggregates s entry)
      (mergeGroup spec.aggregates s' entry') := by
  obtain ⟨job, source⟩ := s
  obtain ⟨job', source'⟩ := s'
  obtain ⟨key, ordinal⟩ := entry
  obtain ⟨key', ordinal'⟩ := entry'
  obtain ⟨hjob, hsource⟩ := hs
  obtain ⟨hkey, hordinal⟩ := hentry
  cases hsource
  cases hordinal
  have hfind := hjob.dictionary.find hkey
  rw [Job.mergeGroup, Job.mergeGroup]
  dsimp only
  rw [← hfind, ← hjob.states]
  cases hf : job.dictionary.find key with
  | some target =>
    refine (Lockstep.self _).bind fun states _ hstates => .ok ⟨?_, rfl⟩
    exact ⟨hjob.number, hjob.rows, hjob.aggregateCount, hjob.evaluator, hjob.dictionary, hstates⟩
  | none =>
    refine (Lockstep.self _).bind fun appended _ happended => ?_
    cases happended
    have hdictionary := hjob.dictionary.insert hkey hf
    exact .ok ⟨⟨hjob.number, hjob.rows, hjob.aggregateCount, hjob.evaluator, hdictionary, rfl⟩, rfl⟩

/-- Taking over twins is refused by both jobs or done by both, group by group. -/
theorem Twins.mergeFrom (hjob : job.Twins spec t h h' job') (hother : other.Twins spec t h h' other') :
    Lockstep (Twins spec t h h') (job.mergeFrom spec.aggregates other)
      (job'.mergeFrom spec.aggregates other') := by
  rw [Job.mergeFrom, Job.mergeFrom]
  by_cases hcount : job.aggregateCount ≠ other.aggregateCount
  · have hcount' : job'.aggregateCount ≠ other'.aggregateCount := by
      rwa [← hjob.aggregateCount, ← hother.aggregateCount]
    rw [if_pos hcount, if_pos hcount', hjob.aggregateCount, hother.aggregateCount]
    exact .error _
  · have hcount' : ¬job'.aggregateCount ≠ other'.aggregateCount := by
      rwa [← hjob.aggregateCount, ← hother.aggregateCount]
    rw [if_neg hcount, if_neg hcount']
    have hroomy : TwinsWith spec t h h'
        ({ job with states := LocalStates.reserve other.size job.states }, other.states)
        ({ job' with states := LocalStates.reserve other'.size job'.states }, other'.states) := by
      have hsize : other.size = other'.size := hother.dictionary.size_eq
      refine ⟨⟨hjob.number, hjob.rows, hjob.aggregateCount, hjob.evaluator, hjob.dictionary, ?_⟩,
        hother.states⟩
      rw [hsize, hjob.states]
    refine (Lockstep.foldlM (fun _ _ _ _ hs hentry => hs.mergeGroup hentry)
      (forall₂_zipIdx hother.dictionary.keys 0) hroomy).bind ?_
    rintro ⟨merged, _⟩ ⟨merged', _⟩ ⟨hmerged, -⟩
    have hrows : job.rows.hull other.rows = job'.rows.hull other'.rows := by
      rw [hjob.rows, hother.rows]
    exact .ok ⟨hmerged.number, hrows, hmerged.aggregateCount, hmerged.evaluator,
      hmerged.dictionary, hmerged.states⟩

/-- **Merging up the tree** is in lockstep. -/
theorem mergeTree_twins (hjobs : List.Forall₂ (Twins spec t h h') jobs jobs') :
    Lockstep (Twins spec t h h') (mergeTree spec.aggregates t jobs)
      (mergeTree spec.aggregates t jobs') := by
  fun_induction mergeTree spec.aggregates t jobs generalizing jobs' with
  | case1 jobs hleaf =>
    rw [mergeTree, if_pos (hjobs.length_eq ▸ hleaf), mergeLeaf, mergeLeaf]
    refine (Lockstep.mapM (fun _ _ hjob => hjob.scan) hjobs).bind fun scanned scanned' hscanned => ?_
    cases hscanned with
    | nil => exact .error _
    | cons hfirst hothers =>
      exact Lockstep.foldlM (fun _ _ _ _ hjob hother => hjob.mergeFrom hother) hothers hfirst
  | @case2 jobs hlarge half ihl ihr =>
    have hhalf : jobs'.length / 2 = half := by rw [← hjobs.length_eq]
    rw [mergeTree.eq_def _ _ jobs', if_neg (hjobs.length_eq ▸ hlarge), hhalf]
    refine (ihl (List.forall₂_take half hjobs)).bind fun left left' hleft => ?_
    exact (ihr (List.forall₂_drop half hjobs)).bind fun right right' hright => hleft.mergeFrom hright

end Job
end Cohort
