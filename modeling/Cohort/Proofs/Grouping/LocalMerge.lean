import Cohort.Proofs.Grouping.Workers
import Cohort.Proofs.Job.Merge
import Cohort.Proofs.States.Layouts
/-
  The merge tree is one scan, order included.

  `Job.Agrees` compares two jobs group by group.  Dictionaries are compared as a whole: the same
  keys, each with its representative row, at the same ordinals.  Tallies are compared by what can be
  compared: counts always, and the rest wherever the order of the inputs does not matter.
-/

namespace Cohort

section

variable [FloatAddition]

/-- Two jobs with the same dictionary and, at every aggregate and ordinal, with the same count and
    the same tally, the latter if the order of inputs does not matter and a sum is of no more
    than `rows` rows. -/
structure Job.Agrees {σ σ' : Type} [LocalStates σ] [LocalStates σ'] (spec : GroupingSpec)
    (rows : Nat) (job : Job σ) (other : Job σ') : Prop where
  dictionary : job.dictionary = other.dictionary
  tallies : ∀ i a, spec.aggregates[i]? = some a → ∀ o, o < job.size →
    ∃ tally tally', LocalStates.load job.states i o = .ok tally ∧
      LocalStates.load other.states i o = .ok tally' ∧ tally.count = tally'.count ∧
      (a.function.IsOrderFree → (a.function.IsSum → rows < UInt64.size) → tally = tally')

namespace Job.Gathered

variable {σ σ' : Type} [LocalStates σ] [LawfulStates σ] [LocalStates σ'] [LawfulStates σ']
variable {spec : GroupingSpec} {t : Table} {job : Job σ} {other : Job σ'} {rows : List Nat}

/-- Two jobs that gathered the same rows agree. -/
theorem agrees (h : job.Gathered spec t rows) (h' : other.Gathered spec t rows) :
    job.Agrees spec rows.length other := by
  refine ⟨h.dictionary_eq.trans h'.dictionary_eq.symm, fun i a hi o ho => ?_⟩
  have hsize : job.size = (spec.discovered t rows).length := by
    obtain ⟨τ, hshows, -⟩ := h
    exact hshows.size_eq
  obtain ⟨tally, hload, hgathers⟩ := h.load_eq (List.getElem?_eq_getElem (hsize ▸ ho)) hi
  obtain ⟨tally', hload', hgathers'⟩ := h'.load_eq (List.getElem?_eq_getElem (hsize ▸ ho)) hi
  refine ⟨tally, tally', hload, hload', hgathers.count_eq.trans hgathers'.count_eq.symm, ?_⟩
  intro hf hrows
  -- a group has no more inputs than there are rows, so its count does not wrap
  have hlen : ∀ values, a.function.IsSum →
      (a.inputs t (spec.members t rows values)).length < UInt64.size :=
    fun values hk => Nat.lt_of_le_of_lt (spec.length_inputs_members_le t rows values a) (hrows hk)
  rw [hgathers.eq_foldInputs hf (hlen _), hgathers'.eq_foldInputs hf (hlen _)]

end Job.Gathered

namespace Engine

variable {e e₁ : Engine} {t : Table}

/-- Grouping locally ends with a job that gathered all rows. -/
theorem groupLocally_eq (e : Engine) (σ : Type) [LocalStates σ] [LawfulStates σ]
    {spans : List Span} {b : Nat} (hne : spans ≠ []) (hspans : Consecutive 0 spans b) :
    ∃ job : Job σ, job.Gathered e.spec t (Span.mk 0 b).rows ∧
      e.groupLocally σ t spans = .ok (.ofJob t e.spec.aggregates e.groupNames job) := by
  have hjobs : e.jobs σ spans ≠ [] := by
    rw [← List.length_pos_iff, length_jobs]
    exact List.length_pos_iff.mpr hne
  obtain ⟨job, htree, hgathered, -⟩ := Job.mergeTree_gathered (e.jobs σ spans) hjobs
    (fun j hj => isFresh_of_mem_jobs hj t) ((e.rows_jobs σ spans).symm ▸ hspans)
  refine ⟨job, hgathered, ?_⟩
  rw [groupLocally, htree]
  rfl

/-- With any admissible number of threads, `localMerge` lists the keys that all rows bring, in the
    order of discovery. -/
theorem keys_of_localMerge (hstrategy : e.config.strategy = .localMerge)
    (hthreads : t.rowCount = 0 ∨ e.config.threads ≤ t.rowCount) (schedule : List Nat) :
    ∃ r, e.group t schedule = .ok r ∧
      r.keys.toList = e.spec.discovered t (Span.mk 0 t.rowCount).rows := by
  by_cases hrows : t.rowCount = 0
  · refine ⟨_, e.group_of_no_rows hrows schedule, ?_⟩
    rw [hrows]
    rfl
  · have hle : e.config.threads ≤ t.rowCount := hthreads.resolve_left hrows
    have hpos : 0 < e.config.threads := Nat.pos_of_ne_zero e.threads_ne_zero
    obtain ⟨spans, hspans, hlength, -, hgroup⟩ := group_eq_groupSpans hle
    have hne : spans ≠ [] := List.length_pos_iff.mp (by omega)
    obtain ⟨job, hgathered, hlocal⟩ :=
      e.groupLocally_eq e.config.storage.Layout hne hspans (t := t)
    refine ⟨.ofJob t e.spec.aggregates e.groupNames job, ?_, ?_⟩
    · rw [hgroup schedule, groupSpans, hstrategy]
      exact hlocal
    · show job.dictionary.keys.toList = _
      rw [hgathered.dictionary_eq, Dictionary.keys_ofKeys]

end Engine

/-- **The merge tree equals one scan.**  Fresh jobs over consecutive spans, merged up the tree, have
    the dictionary, the counts and, where order does not matter, the tallies of a single job that
    scans all their rows.  Hence `localMerge` lists the same keys with any admissible number of
    threads as with one. -/
theorem mergeTree_eq_scan {m m' : StorageMode} {spec : GroupingSpec} {t : Table}
    {jobs : List (Job m.Layout)} {single : Job m'.Layout} {a b : Nat} (hne : jobs ≠ [])
    (hfresh : ∀ job ∈ jobs, job.IsFresh spec t) (hspans : Consecutive a (jobs.map (·.rows)) b)
    (hsingle : single.IsFresh spec t) (hrows : single.rows = ⟨a, b⟩) :
    (∃ merged whole, Job.mergeTree spec.aggregates t jobs = .ok merged ∧
      single.scan spec.aggregates t = .ok whole ∧ merged.rows = whole.rows ∧
      merged.Agrees spec (b - a) whole) ∧
    ∀ (e e₁ : Engine) (schedule schedule₁ : List Nat), e.spec = spec → e₁.spec = spec →
      e.config.strategy = .localMerge → e₁.config.strategy = .localMerge →
      e₁.config.threads = 1 → (t.rowCount = 0 ∨ e.config.threads ≤ t.rowCount) →
      ∃ r r₁, e.group t schedule = .ok r ∧ e₁.group t schedule₁ = .ok r₁ ∧ r.keys = r₁.keys := by
  constructor
  · obtain ⟨merged, htree, hgathered, hmergedRows⟩ := Job.mergeTree_gathered jobs hne hfresh hspans
    obtain ⟨whole, hscan, hshows, hwholeRows⟩ := Job.scan_of_isFresh hsingle
    rw [hrows] at hshows hwholeRows
    refine ⟨merged, whole, htree, hscan, hmergedRows.trans hwholeRows.symm, ?_⟩
    have hlength : (Span.mk a b).rows.length = b - a := Span.length_rows _
    exact hlength ▸ hgathered.agrees hshows.gathered
  · intro e e₁ schedule schedule₁ hspec hspec₁ hlocal hlocal₁ hone hthreads
    have hthreads₁ : t.rowCount = 0 ∨ e₁.config.threads ≤ t.rowCount := by omega
    obtain ⟨r, hr, hkeys⟩ := Engine.keys_of_localMerge hlocal hthreads schedule
    obtain ⟨r₁, hr₁, hkeys₁⟩ := Engine.keys_of_localMerge hlocal₁ hthreads₁ schedule₁
    refine ⟨r, r₁, hr, hr₁, Array.toList_inj.mp ?_⟩
    rw [hkeys, hkeys₁, hspec, hspec₁]

end

/-- Four jobs, one of them without rows, merged by halves. -/
theorem mergeTree_eq_scan_sample :
    let jobs : List (Job StorageMode.list.Layout) := [⟨0, 1⟩, ⟨1, 1⟩, ⟨1, 2⟩, ⟨2, 3⟩].map fun s =>
      .create 0 s (.create GroupingSpec.sample.keys GroupingSpec.sample.hashValue) 2
    let single : Job StorageMode.bucket.Layout :=
      .create 0 ⟨0, 3⟩ (.create GroupingSpec.sample.keys GroupingSpec.sample.hashValue) 2
    jobs ≠ [] ∧ Consecutive 0 (jobs.map (·.rows)) 3 ∧
      ∃ merged whole, Job.mergeTree GroupingSpec.sample.aggregates .sample jobs = .ok merged ∧
        single.scan GroupingSpec.sample.aggregates .sample = .ok whole ∧
        merged.rows = whole.rows ∧ merged.Agrees .sample 3 whole := by
  intro jobs single
  have hne : jobs ≠ [] := by simp [jobs]
  have hspans : Consecutive 0 (jobs.map (·.rows)) 3 :=
    ⟨rfl, by decide, rfl, by decide, rfl, by decide, rfl, by decide, rfl⟩
  have hfresh : ∀ job ∈ jobs, job.IsFresh .sample .sample := by
    intro job hjob
    obtain ⟨s, -, rfl⟩ := List.mem_map.mp hjob
    exact Job.isFresh_create _ _ 0 s
  exact ⟨hne, hspans,
    (mergeTree_eq_scan hne hfresh hspans (Job.isFresh_create _ _ 0 ⟨0, 3⟩) rfl).1⟩

end Cohort
