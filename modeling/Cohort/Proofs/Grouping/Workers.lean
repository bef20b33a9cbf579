import Cohort.Proofs.Job.Scan
import Cohort.Proofs.Partition
import Cohort.States.Layout
/-
  The workers of an engine: what `group` hands to a strategy.

  Every admissible number of threads gives as many workers, no span of theirs is empty, and the
  spans cut the table from the first row to the last.  The jobs made for the spans are fresh.
-/

namespace Cohort.Engine

variable {e : Engine} {t : Table}

theorem length_jobs (e : Engine) (σ : Type) [LocalStates σ] (spans : List Span) :
    (e.jobs σ spans).length = spans.length := by
  rw [jobs, List.length_map, List.length_zipIdx]

theorem rows_jobs (e : Engine) (σ : Type) [LocalStates σ] (spans : List Span) :
    (e.jobs σ spans).map (·.rows) = spans := by
  rw [jobs, List.map_map]
  exact List.zipIdx_map_fst 0 spans

theorem isFresh_of_mem_jobs {σ : Type} [LocalStates σ] {spans : List Span} {job : Job σ}
    (h : job ∈ e.jobs σ spans) (t : Table) : job.IsFresh e.spec t := by
  obtain ⟨p, -, rfl⟩ := List.mem_map.mp h
  exact Job.isFresh_create e.spec t p.2 p.1

variable [FloatAddition]

/-- A table without rows has no groups. -/
theorem group_of_no_rows (e : Engine) (h : t.rowCount = 0) (schedule : List Nat) :
    e.group t schedule = .ok (.empty t e.spec.aggregates e.groupNames) := if_pos h

/-- **Grouping is grouping the spans of a partition** in the layout of the storage mode. -/
theorem group_of_partition {spans : List Span} (hrows : t.rowCount ≠ 0)
    (hspans : partition t.rowCount e.config.threads = .ok spans) (schedule : List Nat) :
    e.group t schedule = e.groupSpans e.config.storage.Layout t spans schedule := by
  rw [group, if_neg hrows, hspans]
  cases hstorage : e.config.storage <;> rfl

/-- With any admissible number of threads there is a partition to group. -/
theorem group_eq_groupSpans (h : e.config.threads ≤ t.rowCount) :
    ∃ spans, Consecutive 0 spans t.rowCount ∧ spans.length = e.config.threads ∧
      (∀ s ∈ spans, s.start < s.stop) ∧
      ∀ schedule, e.group t schedule = e.groupSpans e.config.storage.Layout t spans schedule := by
  have hpos : 0 < e.config.threads := Nat.pos_of_ne_zero e.threads_ne_zero
  obtain ⟨spans, hspans, hlength, hcut, hbusy⟩ := partition_spec hpos h
  exact ⟨spans, hcut, hlength, hbusy, group_of_partition (by omega) hspans⟩

/-- Grouping succeeds only if there is nothing to group or no worker is idle. -/
theorem threads_le_of_group_ok {e : Engine} {t : Table} {schedule : List Nat} {r : Results}
    (hr : e.group t schedule = .ok r) (hrows : t.rowCount ≠ 0) : e.config.threads ≤ t.rowCount := by
  by_contra hlt
  have hshare : t.rowCount / e.config.threads = 0 := Nat.div_eq_of_lt (by omega)
  rw [group, if_neg hrows, partition, if_neg e.threads_ne_zero] at hr
  dsimp only at hr
  rw [if_pos hshare] at hr
  cases hr

end Cohort.Engine
