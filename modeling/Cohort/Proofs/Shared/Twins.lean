import Cohort.Proofs.Job.Twins
import Cohort.Shared.Flusher
import Cohort.Shared.Scanner
/-
  Shared groups of two runs that hash key values differently are TWINS under every interleaving.

  Twin shared groups have twin dictionaries and the same entries, slot by slot.  A flusher or a
  scanner finds twin keys at the same slot, so its next step does the same in both runs, whatever
  steps of others came before: one step is in lockstep, and with it every schedule.
-/

namespace Cohort

variable {spec : GroupingSpec} {t : Table} {h h' : Scalar → UInt64}

/-- Shared groups that differ in the hashes of their keys at most. -/
structure SharedGroups.Twins (h h' : Scalar → UInt64) (g g' : SharedGroups) : Prop where
  dictionary : g.dictionary.Twins h h' g'.dictionary
  entries : g.entries = g'.entries

namespace SharedGroups

variable {g g' : SharedGroups}

theorem twins_empty (h h' : Scalar → UInt64) :
    Twins h h' (SharedDictionary.empty : SharedGroups) .empty :=
  ⟨Dictionary.twins_empty h h', rfl⟩

theorem Twins.insert (hg : Twins h h' g g') {key key' : Key} (hkey : key.Twins h h' key')
    (hnew : g.find key = none) (buckets : List Bucket) :
    Twins h h' (g.insert key buckets) (g'.insert key' buckets) :=
  ⟨hg.dictionary.insert hkey hnew, congrArg (·.push buckets) hg.entries⟩

theorem Twins.perform [FloatAddition] (hg : Twins h h' g g') (v : Visit) :
    Twins h h' (v.perform g) (v.perform g') := by
  refine ⟨hg.dictionary, ?_⟩
  show g.entries.modify v.slot _ = g'.entries.modify v.slot _
  rw [hg.entries]

/-- **A group is found, or added, at the same slot in both runs.** -/
theorem Twins.getOrInsertWith (hg : Twins h h' g g') {key key' : Key}
    (hkey : key.Twins h h' key') (init : Unit → List Bucket) :
    (g.getOrInsertWith key init).1 = (g'.getOrInsertWith key' init).1 ∧
      Twins h h' (g.getOrInsertWith key init).2 (g'.getOrInsertWith key' init).2 := by
  have hfind : g.find key = g'.find key' := hg.dictionary.find hkey
  rw [SharedDictionary.getOrInsertWith, SharedDictionary.getOrInsertWith, ← hfind]
  cases hf : g.find key with
  | some slot => exact ⟨rfl, hg⟩
  | none =>
    have hsize : g.size = g'.size := by
      rw [SharedDictionary.size, SharedDictionary.size, hg.entries]
    exact ⟨by rw [hsize], hg.insert hkey hf _⟩

/-- Twins are read in the same way. -/
theorem Twins.load_eq (hg : Twins h h' g g') : load g = load g' := by
  funext aggregate slot
  rw [load, load, SharedDictionary.get?, SharedDictionary.get?, SharedDictionary.size,
    SharedDictionary.size, hg.entries]

end SharedGroups

/-! ## Pouring -/

/-- Flushers that differ in the hashes of their keys at most. -/
structure Flusher.Twins {σ : Type} (h h' : Scalar → UInt64) (w w' : Flusher σ) : Prop where
  states : w.states = w'.states
  pending : List.Forall₂ (Key.TwinsAt h h') w.pending w'.pending
  visits : w.visits = w'.visits
  donated : w.donated = w'.donated

namespace Flusher

variable {σ : Type} {w w' : Flusher σ} {g g' : SharedGroups}

theorem twins_ofJob {job job' : Job σ} (hjob : job.Twins spec t h h' job') :
    Twins h h' (ofJob job) (ofJob job') :=
  ⟨hjob.states, forall₂_zipIdx hjob.dictionary.keys 0, rfl, rfl⟩

/-- Twins have as many steps left as one another. -/
theorem Twins.cost_eq (hw : Twins h h' w w') (aggregates : List Aggregate) :
    cost aggregates w = cost aggregates w' := by
  rw [cost, cost, hw.visits, hw.pending.length_eq]

variable [LocalStates σ]

/-- A group is donated by both flushers, or met by both at the same slot. -/
theorem Twins.beginGroup (hw : Twins h h' w w') (hg : SharedGroups.Twins h h' g g')
    {key key' : Key} (hkey : key.Twins h h' key') (aggregates : List Aggregate) (ordinal : Nat) :
    Lockstep (fun r r' => Twins h h' r.1 r'.1 ∧ SharedGroups.Twins h h' r.2 r'.2)
      (beginGroup aggregates w key ordinal g) (beginGroup aggregates w' key' ordinal g') := by
  have hfind : g.find key = g'.find key' := hg.dictionary.find hkey
  rw [Flusher.beginGroup, Flusher.beginGroup, ← hfind, ← hw.states]
  cases hf : g.find key with
  | none =>
    refine (Lockstep.self _).bind fun taken _ htaken => ?_
    cases htaken
    refine .ok ⟨⟨rfl, hw.pending, hw.visits, ?_⟩, hg.insert hkey hf _⟩
    exact congrArg (· + 1) hw.donated
  | some slot =>
    refine (Lockstep.self _).bind fun tallies _ htallies => ?_
    cases htallies
    exact .ok ⟨⟨rfl, hw.pending, rfl, hw.donated⟩, hg⟩

variable [FloatAddition]

/-- **Every step** of twin flushers is in lockstep. -/
theorem step_twins (aggregates : List Aggregate) :
    Crew.InLockstep (Twins h h') (SharedGroups.Twins h h') (step aggregates (σ := σ))
      (step aggregates) := by
  intro w w' g g' hw hg
  rw [step, step, ← hw.visits]
  cases hvisits : w.visits with
  | cons v rest => exact .ok ⟨⟨hw.states, hw.pending, rfl, hw.donated⟩, hg.perform v⟩
  | nil =>
    have hpending := hw.pending
    generalize w.pending = pending at hpending ⊢
    generalize w'.pending = pending' at hpending ⊢
    cases hpending with
    | nil => exact .ok ⟨hw, hg⟩
    | @cons entry entry' rest rest' hentry hrest =>
      obtain ⟨key, ordinal⟩ := entry
      obtain ⟨key', ordinal'⟩ := entry'
      obtain ⟨hkey, hordinal⟩ := hentry
      cases hordinal
      have hnext : Twins h h' ⟨w.states, rest, [], w.donated⟩ ⟨w'.states, rest', [], w'.donated⟩ :=
        ⟨hw.states, hrest, rfl, hw.donated⟩
      exact hnext.beginGroup hg hkey aggregates ordinal

/-- **Pouring** is in lockstep under every schedule. -/
theorem flushAll_twins {jobs jobs' : List (Job σ)}
    (hjobs : List.Forall₂ (Job.Twins spec t h h') jobs jobs') (aggregates : List Aggregate)
    (schedule : List Nat) :
    Lockstep (Crew.Corresponds (Twins h h') (SharedGroups.Twins h h'))
      (flushAll aggregates schedule jobs .empty) (flushAll aggregates schedule jobs' .empty) := by
  have hworkers : List.Forall₂ (Twins h h') (jobs.map ofJob) (jobs'.map ofJob) :=
    List.rel_map (fun _ _ hjob => twins_ofJob hjob) hjobs
  exact Crew.Corresponds.interleave (step_twins aggregates) (fun _ _ hw => hw.cost_eq aggregates)
    ⟨hworkers, SharedGroups.twins_empty h h'⟩ schedule

end Flusher

/-! ## Scanning -/

/-- Scanners that differ in the hashes of their keys at most. -/
structure Scanner.Twins (spec : GroupingSpec) (t : Table) (h h' : Scalar → UInt64)
    (w w' : Scanner) : Prop where
  evaluator : w.evaluator.Twins spec t h h' w'.evaluator
  pending : w.pending = w'.pending
  absent : w.absent = w'.absent
  visits : w.visits = w'.visits
  /-- The row in hand is the one that is remembered. -/
  remembered : ∀ row, w.absent = some row → w.evaluator.row = some row

namespace Scanner

variable {w w' : Scanner}

theorem Twins.cost_eq (hw : Twins spec t h h' w w') (aggregates : List Aggregate) :
    cost aggregates w = cost aggregates w' := by
  rw [cost, cost, hw.visits, hw.absent, hw.pending]

variable [FloatAddition]

/-- **Every step** of twin scanners does the same in both runs. -/
theorem Twins.step (hw : Twins spec t h h' w w') {g g' : SharedGroups}
    (hg : SharedGroups.Twins h h' g g') (aggregates : List Aggregate) :
    Twins spec t h h' (step aggregates t w g).1 (step aggregates t w' g').1 ∧
      SharedGroups.Twins h h' (step aggregates t w g).2 (step aggregates t w' g').2 := by
  rw [Scanner.step, Scanner.step, ← hw.visits]
  cases hvisits : w.visits with
  | cons v rest =>
    exact ⟨⟨hw.evaluator, hw.pending, hw.absent, rfl, hw.remembered⟩, hg.perform v⟩
  | nil =>
    dsimp only
    rw [← hw.absent]
    cases habsent : w.absent with
    | some row =>
      have hkey := hw.evaluator.keyAt (hw.remembered row habsent)
      obtain ⟨hslot, hgroups⟩ := hg.getOrInsertWith hkey fun _ => newBuckets aggregates
      refine ⟨⟨hw.evaluator, hw.pending, rfl, ?_, nofun⟩, hgroups⟩
      exact congrArg (fun r => updateVisits aggregates t row r.1) hslot
    | none =>
      dsimp only
      rw [← hw.pending]
      cases hpending : w.pending with
      | nil => exact ⟨hw, hg⟩
      | cons row rest =>
        have hev := hw.evaluator.visit row
        have hrow := KeyEvaluator.row_visit w.evaluator t row
        have hfind : g.findRemembered (w.evaluator.visit t row) =
            g'.findRemembered (w'.evaluator.visit t row) :=
          hg.dictionary.find (hev.keyAt hrow)
        dsimp only
        rw [← hfind]
        cases g.findRemembered (w.evaluator.visit t row) with
        | some slot => exact ⟨⟨hev, rfl, rfl, rfl, nofun⟩, hg⟩
        | none =>
          refine ⟨⟨hev, rfl, rfl, rfl, fun row' hrow' => ?_⟩, hg⟩
          cases hrow'
          exact hrow

/-- **Scanning** is in lockstep under every schedule. -/
theorem scanAll_twins {ev ev' : KeyEvaluator} (hev : ev.Twins spec t h h' ev')
    (aggregates : List Aggregate) (schedule : List Nat) (spans : List Span) :
    Lockstep (Crew.Corresponds (Twins spec t h h') (SharedGroups.Twins h h'))
      (scanAll aggregates t ev schedule spans .empty)
      (scanAll aggregates t ev' schedule spans .empty) := by
  have hworkers : List.Forall₂ (Twins spec t h h') (spans.map (ofSpan ev)) (spans.map (ofSpan ev')) :=
    List.rel_map (fun s _ hs => hs ▸ ⟨hev, rfl, rfl, rfl, nofun⟩)
      (List.forall₂_same.mpr fun _ _ => rfl)
  exact Crew.Corresponds.interleave (fun _ _ _ _ hw hg => .ok (hw.step hg aggregates))
    (fun _ _ hw => hw.cost_eq aggregates) ⟨hworkers, SharedGroups.twins_empty h h'⟩ schedule

end Scanner
end Cohort
