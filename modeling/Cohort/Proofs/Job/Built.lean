import Cohort.Proofs.Job.Merge
/-
  Jobs that are BUILT from fresh ones by scans and merges, in any order and any number.

  A scan of a job that has groups already, or has taken over those of others, goes on where they
  are; so the tallies of a group are no longer folds of its members' inputs, but something reached
  from them by updates and merges.

  1. **Invariant.**  `Job.Amassed` says that a job has the groups of some rows and that every tally
     was reached from the inputs of the members of its group.

  2. **Step and run.**  A row more (`Amassed.scanRow`), hence a scan (`Amassed.scan`), and a merge
     (`Amassed.mergeFrom`) keep it, so every job that was built has it (`Built.amassed`).
-/

namespace Cohort

variable [FloatAddition]

/-- A row brings its input, if it has one, into a tally. -/
theorem Aggregate.reached_updateTally {a : Aggregate} {t : Table} {row : Nat} {xs : List UInt64}
    {tally : Tally} (h : a.function.Reached xs tally) :
    a.function.Reached (xs ++ (a.input? t row).toList) (a.updateTally t row tally) := by
  rw [updateTally]
  cases a.input? t row with
  | none =>
    rw [Option.toList_none, List.append_nil]
    exact h
  | some word => exact .update word h

namespace Job

variable {σ : Type} [LocalStates σ]

/-- `Built spec t rows job`: the job came from fresh jobs by scans of the table and by merges of
    jobs that came about like this, and `rows` are the rows that were scanned for it. -/
inductive Built (spec : GroupingSpec) (t : Table) : List Nat → Job σ → Prop
  | fresh {job : Job σ} : job.IsFresh spec t → Built spec t [] job
  | scan {rows : List Nat} {job job' : Job σ} : Built spec t rows job →
      job.scan spec.aggregates t = .ok job' → Built spec t (rows ++ job.rows.rows) job'
  | mergeFrom {l m : List Nat} {job other job' : Job σ} : Built spec t l job →
      Built spec t m other → job.mergeFrom spec.aggregates other = .ok job' →
      Built spec t (l ++ m) job'

variable [LawfulStates σ] {spec : GroupingSpec} {t : Table} {rows l m : List Nat}
variable {job other : Job σ}

/-- A job with the groups of some rows, every tally reached from the members of its group. -/
def Amassed (spec : GroupingSpec) (t : Table) (rows : List Nat) (job : Job σ) : Prop :=
  ∃ τ, job.Shows spec t (spec.discovered t rows) τ ∧ ∀ values, ∀ a ∈ spec.aggregates,
    a.function.Reached (a.inputs t (spec.members t rows values)) (τ values a)

theorem IsFresh.amassed (h : job.IsFresh spec t) : job.Amassed spec t [] :=
  ⟨fun _ _ => .empty, h.shows, fun _ _ _ => .empty⟩

namespace Amassed

/-! ## Scans -/

/-- **One row more.** -/
theorem scanRow (h : job.Amassed spec t rows) (row : Nat) :
    ∃ job', Job.scanRow spec.aggregates t job row = .ok job' ∧
      job'.Amassed spec t (rows ++ [row]) ∧ job'.rows = job.rows := by
  obtain ⟨τ, hshows, hτ⟩ := h
  -- a tuple without a group has no members, so nothing was reached
  have hnone : (∀ k ∈ spec.discovered t rows, k.values ≠ spec.valuesAt t row) →
      ∀ a ∈ spec.aggregates, τ (spec.valuesAt t row) a = .empty := by
    intro hnew a ha
    have hmembers : ¬∃ r ∈ rows, spec.valuesAt t r = spec.valuesAt t row := by
      rw [← spec.exists_mem_discovered_iff t]
      rintro ⟨k, hk, hv⟩
      exact hnew k hk hv
    have hreached := hτ (spec.valuesAt t row) a ha
    rw [spec.members_eq_nil t hmembers] at hreached
    exact hreached.eq_empty
  obtain ⟨job', hscan, hshows', hrows⟩ := hshows.scanRow row hnone
  rw [← spec.discovered_concat] at hshows'
  refine ⟨job', hscan, ⟨spec.afterRow t row τ, hshows', fun values a ha => ?_⟩, hrows⟩
  rw [spec.members_concat, GroupingSpec.afterRow]
  by_cases hvalues : spec.valuesAt t row = values
  · rw [if_pos hvalues, if_pos hvalues.symm, a.inputs_concat]
    exact Aggregate.reached_updateTally (hτ values a ha)
  · rw [if_neg hvalues, if_neg (Ne.symm hvalues)]
    exact hτ values a ha

/-- **Any number of rows.** -/
theorem scanRows (h : job.Amassed spec t rows) (more : List Nat) :
    ∃ job', more.foldlM (Job.scanRow spec.aggregates t) job = .ok job' ∧
      job'.Amassed spec t (rows ++ more) ∧ job'.rows = job.rows := by
  induction more generalizing rows job with
  | nil => exact ⟨job, rfl, by rwa [List.append_nil], rfl⟩
  | cons row more ih =>
    obtain ⟨next, hnext, hamassed, hrows⟩ := h.scanRow row
    obtain ⟨last, hlast, hamassed', hrows'⟩ := ih hamassed
    refine ⟨last, ?_, ?_, hrows'.trans hrows⟩
    · rw [List.foldlM_cons, hnext]
      exact hlast
    · rwa [List.append_assoc] at hamassed'

/-- **A scan** of the job's span. -/
theorem scan (h : job.Amassed spec t rows) :
    ∃ job', job.scan spec.aggregates t = .ok job' ∧
      job'.Amassed spec t (rows ++ job.rows.rows) ∧ job'.rows = job.rows := h.scanRows _

/-! ## Merges -/

/-- **A merge** amasses the rows of both jobs. -/
theorem mergeFrom (h : job.Amassed spec t l) (hother : other.Amassed spec t m) :
    ∃ job', job.mergeFrom spec.aggregates other = .ok job' ∧ job'.Amassed spec t (l ++ m) ∧
      job'.rows = job.rows.hull other.rows := by
  obtain ⟨τ, hshows, hτ⟩ := h
  obtain ⟨υ, hshows', hυ⟩ := hother
  obtain ⟨job', τ', hmerge, hmerged, hjoins, hrows⟩ := hshows.mergeFrom hshows'
  refine ⟨job', hmerge, ⟨τ', ?_, fun values a ha => ?_⟩, hrows⟩
  · rw [spec.discovered_append]
    exact hmerged
  by_cases hvalues : ∃ row ∈ l ++ m, spec.valuesAt t row = values
  · exact hjoins.of_rows ha .empty .merge (fun _ => hτ values a ha) (fun _ => hυ values a ha)
      hvalues
  · have hkept : τ' values = τ values := by
      refine hjoins.kept values fun k hk hv => hvalues ?_
      obtain ⟨row, hrow, hrow'⟩ := (spec.exists_mem_discovered_iff t).mp ⟨k, hk, hv⟩
      exact ⟨row, List.mem_append_right l hrow, hrow'⟩
    have hnone : ¬∃ row ∈ l, spec.valuesAt t row = values := by
      rintro ⟨row, hrow, hv⟩
      exact hvalues ⟨row, List.mem_append_left m hrow, hv⟩
    rw [hkept, spec.members_eq_nil t hvalues, ← spec.members_eq_nil t hnone]
    exact hτ values a ha

end Amassed

/-! ## Runs -/

/-- **However a job was built**, it has the groups of the rows that were scanned for it. -/
theorem Built.amassed (h : job.Built spec t rows) : job.Amassed spec t rows := by
  induction h with
  | fresh h => exact h.amassed
  | scan _ hscan ih =>
    obtain ⟨job', hscan', hamassed, -⟩ := ih.scan
    cases hscan.symm.trans hscan'
    exact hamassed
  | mergeFrom _ _ hmerge ih ih' =>
    obtain ⟨job', hmerge', hamassed, -⟩ := ih.mergeFrom ih'
    cases hmerge.symm.trans hmerge'
    exact hamassed

end Job
end Cohort
