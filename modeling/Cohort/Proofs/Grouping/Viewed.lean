import Cohort.Grouping.Engine
import Cohort.Proofs.States.View
/-
  RUNS in a view: what an engine does with the states of one layout, it does with what is seen of
  them.

  Jobs, flushers and the engine touch states by the operations of their layout only, so each of them
  follows step by step: scanning a row, taking over a group, merging up the tree, pouring a group.
  Dictionaries, schedules and shared groups are not seen differently, they are the same.  At the end
  the results have the same keys, and what can be read of the one can be read of the other
  (`Engine.groupSpans_follows`).
-/

namespace Cohort

variable {τ σ : Type} [LocalStates τ] [LocalStates σ]

/-! ## Jobs -/

namespace Job

/-- A job whose states are seen as others. -/
def seen (φ : LayoutView τ σ) (job : Job τ) : Job σ :=
  ⟨job.number, job.rows, job.aggregateCount, job.evaluator, job.dictionary, φ.view job.states⟩

/-- A new job is seen as a new job. -/
theorem seen_create (φ : LayoutView τ σ) (number : Nat) (rows : Span) (evaluator : KeyEvaluator)
    (aggregateCount : Nat) :
    (create number rows evaluator aggregateCount : Job τ).seen φ =
      create number rows evaluator aggregateCount := by
  rw [create, create, seen, φ.create]

variable (φ : LayoutView τ σ) (aggregates : List Aggregate) (t : Table)

/-- **One row**: the dictionary answers for both, so both push and update the same group. -/
theorem scanRow_follows (job : Job τ) (row : Nat) :
    Follows (seen φ) (job.scanRow aggregates t row) ((job.seen φ).scanRow aggregates t row) := by
  have hfound : (job.seen φ).dictionary.findOrInsert (job.seen φ).evaluator t row =
      job.dictionary.findOrInsert job.evaluator t row := rfl
  rw [Job.scanRow, Job.scanRow, hfound]
  generalize job.dictionary.findOrInsert job.evaluator t row = found
  obtain ⟨⟨ordinal, isNew⟩, dictionary, evaluator⟩ := found
  have hpushed : φ.view (if isNew = true then LocalStates.push job.states else job.states) =
      if isNew = true then LocalStates.push (φ.view job.states) else φ.view job.states := by
    rw [apply_ite φ.view, φ.push]
  have hupdate := φ.update aggregates t row ordinal
    (if isNew = true then LocalStates.push job.states else job.states)
  rw [hpushed] at hupdate
  exact hupdate.bind fun states =>
    .ok { job with dictionary := dictionary, evaluator := evaluator, states := states }

/-- So a job follows through all rows of its span. -/
theorem scan_follows (job : Job τ) :
    Follows (seen φ) (job.scan aggregates t) ((job.seen φ).scan aggregates t) :=
  Follows.foldlM_same (scanRow_follows φ aggregates t) job.rows.rows job

/-- **One group** taken over: merged where its key is known, and appended where it is not. -/
theorem mergeGroup_follows (s : Job τ × τ) (entry : Key × Nat) :
    Follows (Prod.map (seen φ) φ.view) (mergeGroup aggregates s entry)
      (mergeGroup aggregates (Prod.map (seen φ) φ.view s) entry) := by
  obtain ⟨job, source⟩ := s
  have hfind : (job.seen φ).dictionary.find entry.1 = job.dictionary.find entry.1 := rfl
  rw [mergeGroup, mergeGroup, Prod.map]
  dsimp only
  rw [hfind]
  cases job.dictionary.find entry.1 with
  | some ordinal =>
    exact (φ.merge aggregates ordinal source entry.2 job.states).bind fun states =>
      .ok ({ job with states := states }, source)
  | none =>
    exact (φ.append aggregates source entry.2 job.states).bind fun appended =>
      .ok ({ job with dictionary := job.dictionary.insert entry.1, states := appended.2.1 },
        appended.2.2)

/-- So a job that takes over another one follows, and it is refused for the same reason. -/
theorem mergeFrom_follows (job other : Job τ) :
    Follows (seen φ) (job.mergeFrom aggregates other)
      ((job.seen φ).mergeFrom aggregates (other.seen φ)) := by
  have hcount : ((job.seen φ).aggregateCount ≠ (other.seen φ).aggregateCount) =
      (job.aggregateCount ≠ other.aggregateCount) := rfl
  rw [mergeFrom, mergeFrom]
  simp only [hcount]
  split
  · exact .error _ _
  · have hfold := Follows.foldlM_same (mergeGroup_follows φ aggregates)
      other.dictionary.keys.toList.zipIdx
      ({ job with states := LocalStates.reserve other.size job.states }, other.states)
    rw [Prod.map, seen, φ.reserve] at hfold
    exact hfold.bind fun merged => .ok { merged.1 with rows := job.rows.hull other.rows }

/-- Few jobs are scanned and merged from left to right. -/
theorem mergeLeaf_follows (jobs : List (Job τ)) :
    Follows (seen φ) (mergeLeaf aggregates t jobs)
      (mergeLeaf aggregates t (jobs.map (seen φ))) := by
  refine (Follows.mapM (scan_follows φ aggregates t) jobs).bind fun scanned => ?_
  cases scanned with
  | nil => exact .error _ _
  | cons first others => exact .foldlM (mergeFrom_follows φ aggregates) others first

/-- **Merging up the tree** follows. -/
theorem mergeTree_follows (jobs : List (Job τ)) :
    Follows (seen φ) (mergeTree aggregates t jobs)
      (mergeTree aggregates t (jobs.map (seen φ))) := by
  fun_induction mergeTree aggregates t jobs with
  | case1 jobs hleaf =>
    rw [mergeTree, if_pos (by rwa [List.length_map])]
    exact mergeLeaf_follows φ aggregates t jobs
  | case2 jobs hlarge half ihl ihr =>
    rw [List.map_take] at ihl
    rw [List.map_drop] at ihr
    rw [mergeTree.eq_def _ _ (jobs.map (seen φ)), if_neg (by rwa [List.length_map]),
      List.length_map]
    exact ihl.bind fun left => ihr.bind fun right => mergeFrom_follows φ aggregates left right

end Job

/-! ## Pouring -/

namespace Flusher

/-- A flusher whose states are seen as others. -/
def seen (φ : LayoutView τ σ) (w : Flusher τ) : Flusher σ :=
  ⟨φ.view w.states, w.pending, w.visits, w.donated⟩

variable (φ : LayoutView τ σ) (aggregates : List Aggregate)

/-- A flusher moves a group out where its key is new, and otherwise reads what to fold. -/
theorem beginGroup_follows (w : Flusher τ) (key : Key) (ordinal : Nat) (g : SharedGroups) :
    Follows (Prod.map (seen φ) id) (beginGroup aggregates w key ordinal g)
      (beginGroup aggregates (w.seen φ) key ordinal g) := by
  rw [beginGroup, beginGroup]
  cases g.find key with
  | none =>
    exact (φ.take ordinal w.states).bind fun taken =>
      .ok ({ w with states := taken.2, donated := w.donated + 1 }, g.insert key taken.1)
  | some slot =>
    exact (φ.tallies w.states ordinal).bind fun tallies =>
      .ok ({ w with visits := foldVisits aggregates slot tallies }, g)

variable [FloatAddition]

/-- **One step** of a flusher: a fold that is due, or the next group. -/
theorem step_follows (w : Flusher τ) (g : SharedGroups) :
    Follows (Prod.map (seen φ) id) (step aggregates w g) (step aggregates (w.seen φ) g) := by
  obtain ⟨states, pending, visits, donated⟩ := w
  cases visits with
  | cons v rest => exact .ok (Flusher.mk states pending rest donated, v.perform g)
  | nil =>
    cases pending with
    | nil => exact .ok (Flusher.mk states [] [] donated, g)
    | cons entry rest =>
      exact beginGroup_follows φ aggregates ⟨states, rest, [], donated⟩ entry.1 entry.2 g

/-- **Pouring** follows under every schedule. -/
theorem flushAll_follows (schedule : List Nat) (jobs : List (Job τ)) (g : SharedGroups) :
    Follows (Crew.seen (seen φ)) (flushAll aggregates schedule jobs g)
      (flushAll aggregates schedule (jobs.map (Job.seen φ)) g) := by
  have hworkers : (jobs.map (Job.seen φ)).map ofJob = (jobs.map ofJob).map (seen φ) := by
    rw [List.map_map, List.map_map]
    rfl
  have hcost : ∀ w : Flusher τ, cost aggregates (w.seen φ) = cost aggregates w := fun _ => rfl
  rw [flushAll, flushAll, hworkers]
  exact Crew.interleave_follows (step_follows φ aggregates) hcost schedule _

end Flusher

/-! ## Engines -/

/-- Results that have the same keys as others, and of which nothing can be read that cannot be read
    of the others. -/
structure Results.ReadsAs (r r' : Results) : Prop where
  table : r'.table = r.table
  aggregates : r'.aggregates = r.aggregates
  groupNames : r'.groupNames = r.groupNames
  keys : r'.keys = r.keys
  load : ∀ j i tally, r.load j i = .ok tally → r'.load j i = .ok tally

theorem Results.ReadsAs.refl (r : Results) : r.ReadsAs r :=
  ⟨rfl, rfl, rfl, rfl, fun _ _ _ hload => hload⟩

namespace Engine

/-- The jobs of a run are seen as the jobs of the run in the other layout. -/
theorem map_seen_jobs (e : Engine) (φ : LayoutView τ σ) (spans : List Span) :
    (e.jobs τ spans).map (Job.seen φ) = e.jobs σ spans := by
  rw [jobs, jobs, List.map_map]
  exact List.map_congr_left fun p _ => Job.seen_create φ p.2 p.1 e.evaluator _

variable (e : Engine) (t : Table)

/-- Of the results of a job as much can be read as of those of the job seen. -/
theorem readsAs_ofJob (φ : LayoutView τ σ) (job : Job τ) :
    (Results.ofJob t e.spec.aggregates e.groupNames job).ReadsAs
      (.ofJob t e.spec.aggregates e.groupNames (job.seen φ)) :=
  ⟨rfl, rfl, rfl, rfl, fun j i tally hload => φ.load job.states j i tally hload⟩

/-- Private dictionaries that are merged up a tree. -/
theorem groupLocally_follows (φ : LayoutView τ σ) (spans : List Span) {r : Results}
    (hr : e.groupLocally τ t spans = .ok r) :
    ∃ r', e.groupLocally σ t spans = .ok r' ∧ r.ReadsAs r' := by
  rw [groupLocally] at hr ⊢
  cases htree : Job.mergeTree e.spec.aggregates t (e.jobs τ spans) with
  | error err =>
    rw [htree] at hr
    cases hr
  | ok job =>
    rw [htree] at hr
    cases hr
    have htree' := Job.mergeTree_follows φ e.spec.aggregates t (e.jobs τ spans) job htree
    rw [map_seen_jobs] at htree'
    rw [htree']
    exact ⟨_, rfl, e.readsAs_ofJob t φ job⟩

variable [FloatAddition]

/-- Private dictionaries that are poured into a shared one. -/
theorem groupAndFlush_follows (φ : LayoutView τ σ) (spans : List Span) (schedule : List Nat)
    {r : Results} (hr : e.groupAndFlush τ t spans schedule = .ok r) :
    ∃ r', e.groupAndFlush σ t spans schedule = .ok r' ∧ r.ReadsAs r' := by
  rw [groupAndFlush] at hr ⊢
  cases hscan : (e.jobs τ spans).mapM (Job.scan e.spec.aggregates t) with
  | error err =>
    rw [hscan] at hr
    cases hr
  | ok jobs =>
    have hscan' := Follows.mapM (Job.scan_follows φ e.spec.aggregates t) (e.jobs τ spans) jobs hscan
    rw [map_seen_jobs] at hscan'
    rw [hscan] at hr
    rw [hscan']
    have hpour : Follows id
        (Flusher.flushAll e.spec.aggregates schedule jobs .empty >>= fun crew =>
          .ok (Results.ofShared t e.spec.aggregates e.groupNames crew.shared))
        (Flusher.flushAll e.spec.aggregates schedule (jobs.map (Job.seen φ)) .empty >>= fun crew =>
          .ok (Results.ofShared t e.spec.aggregates e.groupNames crew.shared)) :=
      (Flusher.flushAll_follows φ e.spec.aggregates schedule jobs .empty).bind fun _ => .ok _
    -- a single job is the result, any other number of them is poured
    cases jobs with
    | nil => exact ⟨r, hpour r hr, .refl r⟩
    | cons job rest =>
      cases rest with
      | nil =>
        cases hr
        exact ⟨_, rfl, e.readsAs_ofJob t φ job⟩
      | cons next rest => exact ⟨r, hpour r hr, .refl r⟩

/-- **A run in one layout is a run in the other**: if it succeeds, so does the other, with results
    of which as much can be read. -/
theorem groupSpans_follows (φ : LayoutView τ σ) (spans : List Span) (schedule : List Nat)
    {r : Results} (hr : e.groupSpans τ t spans schedule = .ok r) :
    ∃ r', e.groupSpans σ t spans schedule = .ok r' ∧ r.ReadsAs r' := by
  unfold groupSpans at hr ⊢
  cases hstrategy : e.config.strategy with
  | localMerge =>
    rw [hstrategy] at hr
    exact e.groupLocally_follows t φ spans hr
  | localGlobalMerge =>
    rw [hstrategy] at hr
    exact e.groupAndFlush_follows t φ spans schedule hr
  | globalMerge =>
    rw [hstrategy] at hr
    exact ⟨r, hr, .refl r⟩

end Engine
end Cohort
