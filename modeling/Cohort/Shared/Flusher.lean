import Cohort.Job.Basic
import Cohort.Shared.Crew
import Cohort.Shared.Groups
/-
  Pouring private groups into the shared ones.

  A flusher goes through the groups of a job by ordinal.  It DONATES a group whose key is not there
  yet: the group's tallies become the shared buckets, in the same step that adds the key.  It FOLDS
  any other group into the buckets that are there, one aggregate per step.
-/

namespace Cohort

/-- A worker that pours the groups of a job. -/
structure Flusher (σ : Type) where
  states : σ
  /-- The groups not poured yet. -/
  pending : List (Key × Nat)
  /-- What is left to do for the group in hand. -/
  visits : List Visit
  /-- How many groups were donated. -/
  donated : Nat

namespace Flusher

variable {σ : Type} [LocalStates σ]

/-- The flusher of a job. -/
def ofJob (job : Job σ) : Flusher σ :=
  ⟨job.states, job.dictionary.keys.toList.zipIdx, [], 0⟩

/-- The visits that fold tallies into the group of a slot. -/
def foldVisits (aggregates : List Aggregate) (slot : Nat) (tallies : List Tally) : List Visit :=
  (aggregates.zip tallies).zipIdx.map fun p => ⟨slot, p.2, p.1.1.function, .merge p.1.2⟩

/-- Donate a group, or prepare to fold it. -/
def beginGroup (aggregates : List Aggregate) (w : Flusher σ) (key : Key) (ordinal : Nat)
    (g : SharedGroups) : Except Error (Flusher σ × SharedGroups) :=
  match g.find key with
  | none => do
    let (buckets, states) ← LocalStates.take ordinal w.states
    return ({ w with states := states, donated := w.donated + 1 }, g.insert key buckets)
  | some slot => do
    let tallies ← LocalStates.tallies w.states ordinal
    return ({ w with visits := foldVisits aggregates slot tallies }, g)

/-- One step of a flusher. -/
def step [FloatAddition] (aggregates : List Aggregate) (w : Flusher σ) (g : SharedGroups) :
    Except Error (Flusher σ × SharedGroups) :=
  match w.visits with
  | v :: rest => .ok ({ w with visits := rest }, v.perform g)
  | [] =>
    match w.pending with
    | [] => .ok (w, g)
    | (key, ordinal) :: rest => beginGroup aggregates { w with pending := rest } key ordinal g

/-- The most steps a flusher still has to take. -/
def cost (aggregates : List Aggregate) (w : Flusher σ) : Nat :=
  w.visits.length + w.pending.length * (1 + aggregates.length)

/-- Pour all jobs, interleaved by a schedule. -/
def flushAll [FloatAddition] (aggregates : List Aggregate) (schedule : List Nat)
    (jobs : List (Job σ)) (g : SharedGroups) : Except Error (Crew (Flusher σ) SharedGroups) :=
  (Crew.mk (jobs.map ofJob) g).interleave (step aggregates) (cost aggregates) schedule

end Flusher
end Cohort
