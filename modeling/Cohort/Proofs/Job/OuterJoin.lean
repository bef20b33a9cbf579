import Cohort.Proofs.Job.Built
import Cohort.Proofs.States.Layouts
/-
  Merging two jobs is an OUTER JOIN of their groups by key.

  1. **In place.**  `mergeInPlace` changes a job step by step, so that one can say what is left of it
     after an error: all of it.

  2. **The join.**  `Job.IsOuterJoin` compares three jobs through their lookups alone: what the keys
     of the third are, that every key finds its own ordinal, and what its tallies are, given what
     the two others have for the key.  Neither rows nor sheets are in it.

  3. **One way to be empty.**  A group that only the other job has is moved in one layout and merged
     into an empty group in the others.  These come to the same except where a float is added to
     zero, where the tally was made by another function, or where a count has wrapped
     (`AggregateFunction.Reached.empty_merge`).
-/

namespace Cohort

/-- Going on after a step that succeeded. -/
theorem run_bind_of_ok {ε s α β : Type} {x : EStateM ε s α} {f : α → EStateM ε s β} {a : α}
    {before after : s} (h : x.run before = .ok a after) :
    (x >>= f).run before = (f a).run after := by
  show EStateM.bind x f before = _
  rw [EStateM.bind]
  rw [EStateM.run] at h
  rw [h]
  rfl

namespace Job

variable {σ : Type} [LocalStates σ]

/-! ## In place -/

/-- Take over one group of `source`, in place: what is left of the job after every step. -/
def mergeGroupInPlace (aggregates : List Aggregate) (source : σ) (entry : Key × Nat) :
    EStateM Error (Job σ) σ := do
  let job ← get
  match job.dictionary.find entry.1 with
  | some ordinal =>
    let states ← MonadExcept.ofExcept <|
      LocalStates.merge aggregates ordinal source entry.2 job.states
    set { job with states := states }
    return source
  | none =>
    set { job with dictionary := job.dictionary.insert entry.1 }
    let (_, states, source) ← MonadExcept.ofExcept <|
      LocalStates.append aggregates source entry.2 job.states
    modify fun job => { job with states := states }
    return source

/-- Take over all groups of another job, in place. -/
def mergeInPlace (aggregates : List Aggregate) (other : Job σ) : EStateM Error (Job σ) Unit := do
  let job ← get
  if job.aggregateCount ≠ other.aggregateCount then
    throw (.aggregatesDiffer job.aggregateCount other.aggregateCount)
  set { job with states := LocalStates.reserve other.size job.states }
  let _ ← other.dictionary.keys.toList.zipIdx.foldlM (mergeGroupInPlace aggregates) other.states
  modify fun merged => { merged with rows := job.rows.hull other.rows }

section

variable {aggregates : List Aggregate} {job job' other : Job σ} {source source' : σ}

/-- Jobs that differ in how many aggregates they have are left alone. -/
theorem run_mergeInPlace_of_differ (h : job.aggregateCount ≠ other.aggregateCount) :
    (mergeInPlace aggregates other).run job =
      .error (.aggregatesDiffer job.aggregateCount other.aggregateCount) job := by
  rw [mergeInPlace, run_bind_of_ok (x := get) rfl, if_pos h]
  rfl

theorem run_mergeGroupInPlace {entry : Key × Nat}
    (h : mergeGroup aggregates (job, source) entry = .ok (job', source')) :
    (mergeGroupInPlace aggregates source entry).run job = .ok source' job' := by
  rw [mergeGroup] at h
  rw [mergeGroupInPlace, run_bind_of_ok (x := get) rfl]
  dsimp only at h ⊢
  cases hf : job.dictionary.find entry.1 with
  | some ordinal =>
    rw [hf] at h
    dsimp only at h ⊢
    cases hmerge : LocalStates.merge aggregates ordinal source entry.2 job.states with
    | error e =>
      rw [hmerge] at h
      cases h
    | ok states =>
      rw [hmerge] at h
      cases h
      rfl
  | none =>
    rw [hf] at h
    dsimp only at h ⊢
    cases happend : LocalStates.append aggregates source entry.2 job.states with
    | error e =>
      rw [happend] at h
      cases h
    | ok moved =>
      rw [happend] at h
      cases h
      rfl

theorem run_foldlM_mergeGroupInPlace {entries : List (Key × Nat)}
    (h : entries.foldlM (mergeGroup aggregates) (job, source) = .ok (job', source')) :
    (entries.foldlM (mergeGroupInPlace aggregates) source).run job = .ok source' job' := by
  induction entries generalizing job source with
  | nil =>
    cases h
    rfl
  | cons entry rest ih =>
    rw [List.foldlM_cons] at h ⊢
    cases hstep : mergeGroup aggregates (job, source) entry with
    | error e =>
      rw [hstep] at h
      cases h
    | ok next =>
      rw [hstep] at h
      rw [run_bind_of_ok (run_mergeGroupInPlace hstep)]
      exact ih h

/-- A merge that succeeds leaves the merged job. -/
theorem run_mergeInPlace (h : job.mergeFrom aggregates other = .ok job') :
    (mergeInPlace aggregates other).run job = .ok () job' := by
  rw [mergeFrom] at h
  rw [mergeInPlace, run_bind_of_ok (x := get) rfl]
  by_cases hcount : job.aggregateCount = other.aggregateCount
  · rw [if_neg (not_not_intro hcount)] at h ⊢
    dsimp only at h
    cases hrun : other.dictionary.keys.toList.zipIdx.foldlM (mergeGroup aggregates)
        ({ job with states := LocalStates.reserve other.size job.states }, other.states) with
    | error e =>
      rw [hrun] at h
      cases h
    | ok last =>
      rw [hrun] at h
      cases h
      show EStateM.run (set _ >>= _) job = _
      rw [run_bind_of_ok (x := set _) rfl, run_bind_of_ok (run_foldlM_mergeGroupInPlace hrun)]
      rfl
  · rw [if_pos hcount] at h
    cases h

end

end Job

/-! ## The join -/

section Join

variable [FloatAddition]

namespace Job

variable {σ : Type} [LocalStates σ]

/-- What may come of the tallies that `a` and `b` have of an aggregate for a key.  `moves` tells
    whether a tally that only `b` has may be moved as it is. -/
inductive Joined (f : AggregateFunction) (moves : Prop) (a b : Job σ) (i : Nat) (k : Key) :
    Tally → Prop
  | both {o o' : Nat} {x y : Tally} : a.dictionary.find k = some o →
      b.dictionary.find k = some o' → LocalStates.load a.states i o = .ok x →
      LocalStates.load b.states i o' = .ok y → Joined f moves a b i k (f.merge x y)
  | left {o : Nat} {x : Tally} : a.dictionary.find k = some o → b.dictionary.find k = none →
      LocalStates.load a.states i o = .ok x → Joined f moves a b i k x
  | right {o' : Nat} {y : Tally} : a.dictionary.find k = none → b.dictionary.find k = some o' →
      LocalStates.load b.states i o' = .ok y → Joined f moves a b i k (f.merge .empty y)
  | moved {o' : Nat} {y : Tally} : moves → a.dictionary.find k = none →
      b.dictionary.find k = some o' → LocalStates.load b.states i o' = .ok y →
      Joined f moves a b i k y

/-- `c` is the outer join of `a` and `b`, tallies being merged by `aggregates`. -/
structure IsOuterJoin (aggregates : List Aggregate) (moves : Nat → Aggregate → Prop)
    (c a b : Job σ) : Prop where
  /-- The keys of `a` come first, each with its row and where it was; then come those keys of `b`
      that `a` does not have, in their order. -/
  keys : c.dictionary.keys.toList = a.dictionary.keys.toList ++
    b.dictionary.keys.toList.filter fun k => (a.dictionary.find k).isNone
  /-- No key is repeated, -/
  distinct : c.dictionary.keys.toList.Pairwise fun k k' => k.values ≠ k'.values
  /-- and none is lost. -/
  complete : ∀ k, k ∈ a.dictionary.keys.toList ∨ k ∈ b.dictionary.keys.toList →
    ∃ k' ∈ c.dictionary.keys.toList, k'.values = k.values
  /-- A key finds the ordinal it has. -/
  numbered : ∀ o k, c.dictionary.keys.toList[o]? = some k → c.dictionary.find k = some o
  /-- There are as many groups of tallies as keys, -/
  size : LocalStates.size c.states = c.dictionary.size
  /-- and at the ordinal of a key are the tallies that come of those for the key. -/
  tallies : ∀ o k, c.dictionary.keys.toList[o]? = some k →
    ∀ i g, aggregates[i]? = some g → i < a.aggregateCount →
      ∃ z, LocalStates.load c.states i o = .ok z ∧ Joined g.function (moves i g) a b i k z
  rows : c.rows = a.rows.hull b.rows

/-- Where a tally that was made by `spec` from so many rows may differ from what it becomes when
    merged into an empty one: where floats are added, where the function is another, and where a
    count has wrapped. -/
def Movable (spec : GroupingSpec) (rows : Nat) (i : Nat) (g : Aggregate) : Prop :=
  g.function.AddsFloats ∨ (spec.aggregates[i]?).map (·.function) ≠ some g.function ∨
    (g.function.IsSum ∧ UInt64.size ≤ rows)

section

variable [LawfulStates σ] {spec spec' : GroupingSpec} {t : Table} {rows : List Nat} {n : Nat}
variable {ks ls : List Key} {ρ υ ρ' : Sheet} {job other merged : Job σ}

/-- The tally of an aggregate in a group, by numbers. -/
theorem Keeps.load_eq (h : job.Keeps spec t n ks ρ) {o i : Nat} {k : Key} {x : Tally}
    (ho : ks[o]? = some k) (hx : (ρ k.values)[i]? = some x) :
    LocalStates.load job.states i o = .ok x := by
  rw [LocalStates.load, LawfulStates.tallies_eq h.states (Sheet.getElem?_account ho)]
  dsimp only [bind, Except.bind]
  rw [hx]

/-- Every group has a tally of each aggregate. -/
theorem Keeps.exists_tally (h : job.Keeps spec t n ks ρ) {o i : Nat} {k : Key}
    (ho : ks[o]? = some k) (hi : i < n) : ∃ x, (ρ k.values)[i]? = some x := by
  have hlength := LawfulStates.length_eq h.states (Sheet.getElem?_account ho)
  exact ⟨_, List.getElem?_eq_getElem (hlength ▸ hi)⟩

theorem Keeps.find_eq_some (h : job.Keeps spec t n ks ρ) {k : Key} (hk : spec.IsHashed k) {o : Nat}
    (hf : job.dictionary.find k = some o) : ∃ k', ks[o]? = some k' ∧ k'.values = k.values := by
  obtain ⟨k', hk', hv⟩ := (h.index.find_eq_some_iff hk).mp hf
  rw [h.keys] at hk'
  exact ⟨k', hk', hv⟩

theorem Keeps.find_eq_none (h : job.Keeps spec t n ks ρ) {k : Key} (hk : spec.IsHashed k) :
    job.dictionary.find k = none ↔ ∀ k' ∈ ks, k'.values ≠ k.values := by
  rw [h.index.find_eq_none_iff hk, h.keys]

/-- The tallies of a job built by a specification survive a merge into empty ones. -/
theorem Amassed.empty_merge (h : job.Amassed spec t rows) {i o : Nat} {k : Key} {g : Aggregate}
    {y : Tally} (hg : ¬Movable spec rows.length i g)
    (ho : job.dictionary.keys.toList[o]? = some k)
    (hy : LocalStates.load job.states i o = .ok y) : g.function.merge .empty y = y := by
  obtain ⟨hfloats, hsame, hrows⟩ : ¬g.function.AddsFloats ∧
      (spec.aggregates[i]?).map (·.function) = some g.function ∧
      (g.function.IsSum → rows.length < UInt64.size) := by
    simpa only [Movable, not_or, not_and, Nat.not_le, not_not] using hg
  obtain ⟨τ, hshows, hτ⟩ := h
  obtain ⟨a, ha, hfunction⟩ := Option.map_eq_some_iff.mp hsame
  rw [hshows.keys] at ho
  rw [hshows.load_eq ho ha] at hy
  cases hy
  rw [← hfunction] at hfloats hrows ⊢
  refine (hτ k.values a (List.mem_of_getElem? ha)).empty_merge hfloats fun hk => ?_
  exact AggregateFunction.eq_zero_of_ofNat_eq_zero
    (Nat.lt_of_le_of_lt (spec.length_inputs_members_le t rows k.values a) (hrows hk))

/-- What the joined sheet says of a key is what comes of the tallies that the two jobs have. -/
theorem Keeps.joined (h : job.Keeps spec t n ks ρ) (hother : other.Keeps spec' t n ls υ)
    (hhash : spec'.hashValue = spec.hashValue) {aggregates : List Aggregate}
    (hjoins : Sheet.Joins aggregates n ks ρ ls υ ρ') {k : Key} (hk : spec.IsHashed k)
    (hmem : (∃ k' ∈ ks, k'.values = k.values) ∨ ∃ l ∈ ls, l.values = k.values)
    {i : Nat} {g : Aggregate} (hg : aggregates[i]? = some g) (hi : i < n) {moves : Prop}
    (hmoves : ¬moves → ∀ o l y, ls[o]? = some l → LocalStates.load other.states i o = .ok y →
      g.function.merge .empty y = y) :
    ∃ z, (ρ' k.values)[i]? = some z ∧ Joined g.function moves job other i k z := by
  have hk' : spec'.IsHashed k := by rw [GroupingSpec.IsHashed, hhash]; exact hk
  cases hleft : job.dictionary.find k with
  | some o =>
    obtain ⟨k₁, hk₁, hv₁⟩ := h.find_eq_some hk hleft
    obtain ⟨x, hx⟩ := h.exists_tally hk₁ hi
    have hload := h.load_eq hk₁ hx
    rw [hv₁] at hx
    cases hright : other.dictionary.find k with
    | some o' =>
      obtain ⟨l, hl, hvl⟩ := hother.find_eq_some hk' hright
      obtain ⟨y, hy⟩ := hother.exists_tally hl hi
      have hload' := hother.load_eq hl hy
      have hfolded := hjoins.folded l (List.mem_of_getElem? hl)
        ⟨k₁, List.mem_of_getElem? hk₁, hv₁.trans hvl.symm⟩
      rw [hvl] at hy hfolded
      refine ⟨_, ?_, .both hleft hright hload hload'⟩
      rw [hfolded]
      exact getElem?_foldTallies hg hy hx
    | none =>
      have hkept := hjoins.kept k.values ((hother.find_eq_none hk').mp hright)
      exact ⟨x, hkept ▸ hx, .left hleft hright hload⟩
  | none =>
    have hunknown := (h.find_eq_none hk).mp hleft
    cases hright : other.dictionary.find k with
    | some o' =>
      obtain ⟨l, hl, hvl⟩ := hother.find_eq_some hk' hright
      obtain ⟨y, hy⟩ := hother.exists_tally hl hi
      have hload' := hother.load_eq hl hy
      have hmoved := hjoins.moved l (List.mem_of_getElem? hl) (hvl ▸ hunknown)
      rw [hvl] at hy hmoved
      rcases hmoved with hmoved | hmoved
      · refine ⟨y, hmoved ▸ hy, ?_⟩
        by_cases hm : moves
        · exact .moved hm hleft hright hload'
        · have hfolded : Joined g.function moves job other i k (g.function.merge .empty y) :=
            .right hleft hright hload'
          rwa [hmoves hm o' l y hl hload'] at hfolded
      · refine ⟨_, ?_, .right hleft hright hload'⟩
        rw [hmoved]
        exact getElem?_foldTallies hg hy (by rw [List.getElem?_replicate, if_pos hi])
    | none =>
      have hunknown' := (hother.find_eq_none hk').mp hright
      rcases hmem with ⟨k', hk', hv⟩ | ⟨l, hl, hv⟩
      · exact absurd hv (hunknown k' hk')
      · exact absurd hv (hunknown' l hl)

/-- **What joins the sheets of two jobs is an outer join of the jobs.** -/
theorem Keeps.isOuterJoin (h : job.Keeps spec t n ks ρ) (hother : other.Keeps spec' t n ls υ)
    (hhash : spec'.hashValue = spec.hashValue) {aggregates : List Aggregate}
    (hmerged : merged.Keeps spec t n (ks ++ Key.unseen ks ls) ρ')
    (hjoins : Sheet.Joins aggregates n ks ρ ls υ ρ')
    (hrows : merged.rows = job.rows.hull other.rows) {moves : Nat → Aggregate → Prop}
    (hmoves : ∀ i g, ¬moves i g → ∀ o l y, ls[o]? = some l →
      LocalStates.load other.states i o = .ok y → g.function.merge .empty y = y) :
    merged.IsOuterJoin aggregates moves job other := by
  have hhashed : ∀ l ∈ ls, spec.IsHashed l := by
    intro l hl
    rw [GroupingSpec.IsHashed, ← hhash]
    exact hother.hashed hl
  refine ⟨?_, ?_, ?_, ?_, ?_, ?_, hrows⟩
  · rw [hmerged.keys, h.keys, hother.keys]
    congr 1
    refine List.filter_congr fun l hl => ?_
    rw [Bool.eq_iff_iff, decide_eq_true_iff, Option.isNone_iff_eq_none]
    exact (h.find_eq_none (hhashed l hl)).symm
  · rw [hmerged.keys]
    exact hmerged.distinct
  · intro k hk
    rw [h.keys, hother.keys] at hk
    rw [hmerged.keys]
    rcases hk with hk | hk
    · exact ⟨k, List.mem_append_left _ hk, rfl⟩
    · by_cases hknown : ∃ k' ∈ ks, k'.values = k.values
      · obtain ⟨k', hk', hv⟩ := hknown
        exact ⟨k', List.mem_append_left _ hk', hv⟩
      · have hnew : k ∈ Key.unseen ks ls := by
          refine List.mem_filter.mpr ⟨hk, decide_eq_true fun k' hk' hv => ?_⟩
          exact hknown ⟨k', hk', hv⟩
        exact ⟨k, List.mem_append_right _ hnew, rfl⟩
  · intro o k ho
    have hk := hmerged.index.hashed k (List.mem_of_getElem? ho)
    exact (hmerged.index.find_eq_some_iff hk).mpr ⟨k, ho, rfl⟩
  · rw [LawfulStates.size_eq hmerged.states, Sheet.length_account, ← hmerged.keys]
    exact Array.length_toList
  · intro o k ho i g hg hi
    rw [hmerged.keys] at ho
    have hmem : (∃ k' ∈ ks, k'.values = k.values) ∨ ∃ l ∈ ls, l.values = k.values := by
      rcases List.mem_append.mp (List.mem_of_getElem? ho) with hk | hk
      · exact Or.inl ⟨k, hk, rfl⟩
      · exact Or.inr ⟨k, (List.mem_filter.mp hk).1, rfl⟩
    obtain ⟨z, hz, hjoined⟩ := h.joined hother hhash hjoins
      (hmerged.hashed (List.mem_of_getElem? ho)) hmem hg (h.aggregateCount ▸ hi) (hmoves i g)
    exact ⟨z, hmerged.load_eq ho hz, hjoined⟩

end

/-- **Merging is an outer join.**  Two jobs over one table that hash keys alike, however they were
    built and in whatever layout, are merged to the outer join of their groups, if they have as many
    aggregates.  If not, there is an error, and the job is left as it was. -/
theorem mergeFrom_outer_join {m : StorageMode} {spec spec' : GroupingSpec} {t : Table}
    {a b : Job m.Layout} {rows rows' : List Nat} (ha : a.Built spec t rows)
    (hb : b.Built spec' t rows') (hhash : spec'.hashValue = spec.hashValue)
    (aggregates : List Aggregate) :
    (a.aggregateCount ≠ b.aggregateCount →
      a.mergeFrom aggregates b = .error (.aggregatesDiffer a.aggregateCount b.aggregateCount) ∧
      (mergeInPlace aggregates b).run a =
        .error (.aggregatesDiffer a.aggregateCount b.aggregateCount) a) ∧
    (a.aggregateCount = b.aggregateCount →
      ∃ c, a.mergeFrom aggregates b = .ok c ∧ (mergeInPlace aggregates b).run a = .ok () c ∧
        c.IsOuterJoin aggregates (Movable spec' rows'.length) a b) := by
  constructor
  · intro hcount
    exact ⟨if_pos hcount, run_mergeInPlace_of_differ hcount⟩
  · intro hcount
    obtain ⟨τ, hshows, -⟩ := ha.amassed
    have hamassed := hb.amassed
    obtain ⟨υ, hshows', -⟩ := hb.amassed
    have hlength : spec'.aggregates.length = spec.aggregates.length := by
      rw [← hshows.aggregateCount, ← hshows'.aggregateCount, hcount]
    have hkeeps' := hshows'.keeps
    rw [hlength] at hkeeps'
    obtain ⟨c, ρ, hmerge, hkeeps, hjoins, hrows⟩ :=
      hshows.keeps.mergeFrom aggregates hkeeps' hhash
    refine ⟨c, hmerge, run_mergeInPlace hmerge, ?_⟩
    refine hshows.keeps.isOuterJoin hkeeps' hhash hkeeps hjoins hrows fun i g hg o l y hl hy => ?_
    rw [← hshows'.keys] at hl
    exact hamassed.empty_merge hg hl hy

end Job

end Join

namespace Job

/-- A group that both jobs have and one that only the other has. -/
theorem mergeFrom_outer_join_sample :
    let job : Span → Job StorageMode.bucket.Layout := fun s =>
      .create 0 s (.create GroupingSpec.sample.keys GroupingSpec.sample.hashValue) 2
    ∃ a b c, a.Built .sample .sample [0] ∧ b.Built .sample .sample [1, 2] ∧
      (job ⟨0, 1⟩).scan GroupingSpec.sample.aggregates .sample = .ok a ∧
      (job ⟨1, 3⟩).scan GroupingSpec.sample.aggregates .sample = .ok b ∧
      a.mergeFrom GroupingSpec.sample.aggregates b = .ok c ∧
      c.IsOuterJoin GroupingSpec.sample.aggregates (Movable .sample 2) a b := by
  intro job
  have hbuilt : ∀ s, ∃ a, (job s).scan GroupingSpec.sample.aggregates .sample = .ok a ∧
      a.Built .sample .sample s.rows ∧ a.aggregateCount = 2 := by
    intro s
    have hfresh : (job s).IsFresh .sample .sample := isFresh_create _ _ 0 s
    obtain ⟨a, hscan, hshows, -⟩ := scan_of_isFresh hfresh
    exact ⟨a, hscan, .scan (.fresh hfresh) hscan, hshows.aggregateCount⟩
  obtain ⟨a, ha, hbuilt₁, hcount⟩ := hbuilt ⟨0, 1⟩
  obtain ⟨b, hb, hbuilt₂, hcount'⟩ := hbuilt ⟨1, 3⟩
  obtain ⟨c, hmerge, -, hjoin⟩ :=
    (mergeFrom_outer_join hbuilt₁ hbuilt₂ rfl GroupingSpec.sample.aggregates).2
      (hcount.trans hcount'.symm)
  exact ⟨a, b, c, hbuilt₁, hbuilt₂, ha, hb, hmerge, hjoin⟩

end Job
end Cohort
