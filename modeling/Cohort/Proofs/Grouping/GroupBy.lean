import Cohort.Proofs.Aggregate.Values
import Cohort.Proofs.Grouping.Reading
/-
  One worker on its own computes GROUP BY.

  1. **Specification.**  `Results.IsGroupBy` says what GROUP BY is, group by group: one group per
     tuple of key values, the first row with the tuple to stand for it, and every aggregate the fold
     of the inputs of exactly its rows, in their order.  Addition of floats takes part as it is,
     whatever its laws, so sums of floats are settled to the bit.

  2. **Core.**  Results whose keys are those that the rows bring, and whose tallies are those of the
     rows with the key values, are GROUP BY (`isGroupBy_of_perm`).  In which order the keys come is
     left open, since shared groups have no order of their own.

  3. **Each strategy.**  With one thread there is one span.  A single job is scanned and is the
     result (`Job.Shows.isGroupBy`), or a single scanner does all of its steps in order
     (`Scanner.Scanned.isGroupBy`).
-/

namespace Cohort

section

variable [FloatAddition]

/-- Results that are GROUP BY of some rows. -/
structure Results.IsGroupBy (spec : GroupingSpec) (t : Table) (rows : List Nat) (r : Results) :
    Prop where
  /-- The key values of a row have one group. -/
  unique : ∀ row ∈ rows, ∃! g, g ∈ r.groups ∧ g.keyValues = spec.valuesAt t row
  /-- A group stands for the first row with its key values, and there is such a row. -/
  first : ∀ g ∈ r.groups, g.rowIndex ∈ rows ∧ spec.valuesAt t g.rowIndex = g.keyValues ∧
    ∀ row ∈ rows, spec.valuesAt t row = g.keyValues → g.rowIndex ≤ row
  /-- The values of a group are folded from what its rows contribute, in order. -/
  aggregates : ∀ g ∈ r.groups, g.aggregates = .ok (spec.aggregates.map fun a =>
    a.function.finalize (a.function.foldInputs (a.inputs t (spec.members t rows g.keyValues))))

variable {spec : GroupingSpec} {t : Table} {rows : List Nat} {r : Results}

/-! ## Core -/

namespace Results

omit [FloatAddition] in
/-- Groups of results with different keys are told apart by their key values. -/
theorem eq_of_mem_groups (hdistinct : r.keys.toList.Pairwise fun a b => a.values ≠ b.values)
    {g g' : Group} (hg : g ∈ r.groups) (hg' : g' ∈ r.groups) (hv : g.keyValues = g'.keyValues) :
    g = g' := by
  rw [groups, List.mem_map] at hg hg'
  obtain ⟨p, hp, rfl⟩ := hg
  obtain ⟨p', hp', rfl⟩ := hg'
  have ho := List.mem_zipIdx_iff_getElem?.mp hp
  have ho' := List.mem_zipIdx_iff_getElem?.mp hp'
  have hpair := List.pairwise_iff_getElem.mp hdistinct
  obtain ⟨hlt, hk⟩ := List.getElem?_eq_some_iff.mp ho
  obtain ⟨hlt', hk'⟩ := List.getElem?_eq_some_iff.mp ho'
  have hsame : p.2 = p'.2 := by
    rcases Nat.lt_trichotomy p.2 p'.2 with h | h | h
    · exact absurd (by rw [hk, hk']; exact hv) (hpair _ _ hlt hlt' h)
    · exact h
    · exact absurd (by rw [hk, hk']; exact hv.symm) (hpair _ _ hlt' hlt h)
  have hkey : p.1 = p'.1 := by
    rw [hsame, ho'] at ho
    exact (Option.some.inj ho).symm
  rw [hsame, hkey]

/-- **Results with the keys that rows bring and the tallies of these rows** are GROUP BY. -/
theorem isGroupBy_of_perm (hascending : rows.Pairwise (· < ·))
    (haggregates : r.aggregates = spec.aggregates)
    (hkeys : r.keys.toList.Perm (spec.discovered t rows))
    (hload : ∀ o k, r.keys.toList[o]? = some k → ∀ j a, spec.aggregates[j]? = some a →
      r.load j o = .ok (a.tallyOf t (spec.members t rows k.values))) :
    r.IsGroupBy spec t rows := by
  have hdistinct : r.keys.toList.Pairwise fun a b => a.values ≠ b.values :=
    (hkeys.pairwise_iff fun h => h.symm).mpr (spec.pairwise_discovered t rows)
  refine ⟨fun row hrow => ?_, fun g hg => ?_, fun g hg => ?_⟩
  · obtain ⟨k, hk, hv⟩ := (spec.exists_mem_discovered_iff t).mpr ⟨row, hrow, rfl⟩
    obtain ⟨o, ho⟩ := List.mem_iff_getElem?.mp (hkeys.mem_iff.mpr hk)
    have hgroup : (⟨r, o, k⟩ : Group) ∈ r.groups := mem_groups_iff.mpr ⟨rfl, ho⟩
    refine ⟨_, ⟨hgroup, hv⟩, ?_⟩
    rintro g ⟨hg, hgv⟩
    exact eq_of_mem_groups hdistinct hg hgroup (hgv.trans hv.symm)
  · obtain ⟨-, hkey⟩ := mem_groups_iff.mp hg
    obtain ⟨first, hfirst, heq⟩ := List.mem_map.mp (hkeys.mem_iff.mp (List.mem_of_getElem? hkey))
    have hindex : g.rowIndex = first := by rw [Group.rowIndex, ← heq, spec.row_keyAt]
    have hvalues : spec.valuesAt t first = g.keyValues := by rw [Group.keyValues, ← heq]; rfl
    rw [hindex]
    refine ⟨mem_of_mem_firsts hfirst, hvalues, fun row hrow hv => ?_⟩
    by_contra hlt
    have hne := ne_of_lt_of_mem_firsts hascending hfirst hrow (by omega)
    exact hne (hv.trans hvalues.symm)
  · obtain ⟨hresults, hkey⟩ := mem_groups_iff.mp hg
    have hasked : g.results.aggregates = spec.aggregates := by rw [hresults, haggregates]
    rw [Group.aggregates_eq (g := g) (τ := fun a => a.tallyOf t (spec.members t rows g.keyValues))
      fun j a ha => hresults ▸ hload _ _ hkey j a (hasked ▸ ha), hasked]
    rfl

/-- **What the values of GROUP BY say** about the inputs of their groups. -/
theorem IsGroupBy.describes (h : r.IsGroupBy spec t rows) {g : Group} (hg : g ∈ r.groups) :
    ∃ values, g.aggregates = .ok values ∧ List.Forall₂ (fun a v =>
      (a.function.IsSum → rows.length < UInt64.size) →
        a.function.Describes (a.inputs t (spec.members t rows g.keyValues)) v)
      spec.aggregates values := by
  refine ⟨_, h.aggregates g hg, List.forall₂_map_right_iff.mpr (List.forall₂_same.mpr ?_)⟩
  intro a _ hrows
  refine a.function.describes_foldInputs fun hk => ?_
  exact Nat.lt_of_le_of_lt (spec.length_inputs_members_le t rows g.keyValues a) (hrows hk)

end Results

/-! ## Each strategy -/

/-- **A job that has scanned some rows** is GROUP BY of them, in the order of discovery. -/
theorem Job.Shows.isGroupBy {σ : Type} [LocalStates σ] [LawfulStates σ] {job : Job σ}
    (h : job.Shows spec t (spec.discovered t rows) (spec.ledger t rows))
    (hascending : rows.Pairwise (· < ·)) (groupNames : List String) :
    (Results.ofJob t spec.aggregates groupNames job).IsGroupBy spec t rows := by
  have hkeys : (Results.ofJob t spec.aggregates groupNames job).keys.toList =
      spec.discovered t rows := h.keys
  refine Results.isGroupBy_of_perm hascending rfl (List.Perm.of_eq hkeys) ?_
  intro o k ho j a ha
  rw [hkeys] at ho
  exact h.load_eq ho ha

/-- **Shared groups into which one scanner has put its rows** are GROUP BY of them. -/
theorem Scanner.Scanned.isGroupBy {h : Scanner.History} {g : SharedGroups} {rows : Nat → List Nat}
    (hg : Scanned spec t rows 1 h g) (hascending : (rows 0).Pairwise (· < ·))
    (groupNames : List String) :
    (Results.ofShared t spec.aggregates groupNames g).IsGroupBy spec t (rows 0) := by
  have hkeys : g.dictionary.keys.toList.Perm (spec.discovered t (rows 0)) := by
    have hnodup : g.dictionary.keys.toList.Nodup :=
      hg.distinct.imp fun hne heq => hne (congrArg Key.values heq)
    have hnodup' : (spec.discovered t (rows 0)).Nodup :=
      (spec.pairwise_discovered t (rows 0)).imp fun hne heq => hne (congrArg Key.values heq)
    have hsource : ∀ k ∈ g.dictionary.keys.toList, k ∈ spec.discovered t (rows 0) := by
      intro k hk
      obtain ⟨i, hi, hki⟩ := hg.source k hk
      rwa [Nat.lt_one_iff.mp hi] at hki
    refine (List.perm_ext_iff_of_nodup hnodup hnodup').mpr fun k => ⟨hsource k, fun hk => ?_⟩
    -- some key with these values was scanned, and it is the only one among those discovered
    obtain ⟨row, hrow, hv⟩ := (spec.exists_mem_discovered_iff t).mp ⟨k, hk, rfl⟩
    obtain ⟨k', hk', hv'⟩ := (hg.covered k.values).mpr ⟨0, Nat.zero_lt_one, row, hrow, hv⟩
    exact spec.eq_of_mem_discovered t (hsource k' hk') hk hv' ▸ hk'
  exact Results.isGroupBy_of_perm hascending rfl hkeys fun o k ho j a ha => hg.load_eq ho ha

/-! ## One thread -/

namespace Engine

variable {e : Engine}

/-- A single span is scanned by a single job, be the jobs to be merged or to be poured. -/
theorem exists_single_job (e : Engine) (m : StorageMode) (span : Span) (schedule : List Nat) :
    ∃ job : Job m.Layout,
      job.Shows e.spec t (e.spec.discovered t span.rows) (e.spec.ledger t span.rows) ∧
      e.groupLocally m.Layout t [span] = .ok (.ofJob t e.spec.aggregates e.groupNames job) ∧
      e.groupAndFlush m.Layout t [span] schedule =
        .ok (.ofJob t e.spec.aggregates e.groupNames job) := by
  have hjobs : e.jobs m.Layout [span] = [.create 0 span e.evaluator e.spec.aggregates.length] := rfl
  obtain ⟨job, hscan, hshows, -⟩ := Job.scan_of_isFresh (Job.isFresh_create e.spec t 0 span :
    (Job.create 0 span (.create e.spec.keys e.spec.hashValue) e.spec.aggregates.length :
      Job m.Layout).IsFresh e.spec t)
  have hscan' : (Job.create 0 span e.evaluator e.spec.aggregates.length : Job m.Layout).scan
      e.spec.aggregates t = .ok job := hscan
  refine ⟨job, hshows, ?_, ?_⟩
  · rw [groupLocally, hjobs, Job.mergeTree_singleton, hscan']
    rfl
  · rw [groupAndFlush, hjobs, List.mapM_cons, List.mapM_nil, hscan']
    rfl

/-- One thread and some rows: GROUP BY, and private dictionaries list the keys as discovered. -/
theorem exists_isGroupBy (hone : e.config.threads = 1) (hrows : t.rowCount ≠ 0)
    (schedule : List Nat) :
    ∃ r, e.group t schedule = .ok r ∧ r.IsGroupBy e.spec t (Span.mk 0 t.rowCount).rows ∧
      (e.config.strategy ≠ .globalMerge →
        r.keys.toList = e.spec.discovered t (Span.mk 0 t.rowCount).rows) := by
  have hascending : (Span.mk 0 t.rowCount).rows.Pairwise (· < ·) := List.pairwise_lt_range'
  obtain ⟨spans, hspans, hlength, -, hgroup⟩ :=
    group_eq_groupSpans (e := e) (t := t) (by omega)
  have hspan := hspans.eq_singleton (hlength.trans hone)
  subst hspan
  obtain ⟨job, hshows, hlocal, hflush⟩ :=
    e.exists_single_job e.config.storage ⟨0, t.rowCount⟩ schedule (t := t)
  rw [hgroup schedule, groupSpans]
  cases hstrategy : e.config.strategy with
  | localMerge => exact ⟨_, hlocal, hshows.isGroupBy hascending _, fun _ => hshows.keys⟩
  | localGlobalMerge => exact ⟨_, hflush, hshows.isGroupBy hascending _, fun _ => hshows.keys⟩
  | globalMerge =>
    obtain ⟨c, h, hscan, hscanned⟩ := Scanner.exists_scanAll
      (KeyEvaluator.isCoherent_create e.spec t) [⟨0, t.rowCount⟩] schedule
    refine ⟨_, ?_, hscanned.isGroupBy hascending e.groupNames, fun hne => absurd rfl hne⟩
    dsimp only [groupGlobally]
    show (Scanner.scanAll _ _ (.create e.spec.keys e.spec.hashValue) _ _ _ >>= _) = _
    rw [hscan]
    rfl

end Engine

/-- **One-worker grouping is GROUP BY.**  With one thread, every strategy, every storage mode and
    every schedule give one group per tuple of key values, the first row with the tuple to stand for
    it, and aggregates folded over exactly the rows of the group, in their order; so their values
    are the number, the sum, the least and the greatest of the inputs, or NULL for want of any.  The
    groups of private dictionaries come in the order of their first rows, and a table without rows
    has none. -/
theorem group_by_one_thread {e : Engine} (hone : e.config.threads = 1) (t : Table)
    (schedule : List Nat) :
    ∃ r, e.group t schedule = .ok r ∧
      r.IsGroupBy e.spec t (Span.mk 0 t.rowCount).rows ∧
      (e.config.strategy ≠ .globalMerge → (r.groups.map (·.rowIndex)).Pairwise (· < ·)) ∧
      (∀ g ∈ r.groups, ∃ values, g.aggregates = .ok values ∧ List.Forall₂ (fun a v =>
        (a.function.IsSum → t.rowCount < UInt64.size) → a.function.Describes
          (a.inputs t (e.spec.members t (Span.mk 0 t.rowCount).rows g.keyValues)) v)
        e.spec.aggregates values) ∧
      (t.rowCount = 0 → r.groups = []) := by
  by_cases hrows : t.rowCount = 0
  · have hgroup := e.group_of_no_rows hrows schedule
    rw [hrows]
    exact ⟨_, hgroup, ⟨nofun, nofun, nofun⟩, fun _ => .nil, nofun, fun _ => rfl⟩
  · obtain ⟨r, hgroup, hr, hkeys⟩ := Engine.exists_isGroupBy hone hrows schedule
    have hlength : (Span.mk 0 t.rowCount).rows.length = t.rowCount := Span.length_rows _
    refine ⟨r, hgroup, hr, fun hne => ?_, fun g hg => ?_, fun hzero => absurd hzero hrows⟩
    · -- the groups are listed as their first rows are, and those are among all rows in order
      have hindexes : r.groups.map (·.rowIndex) =
          e.spec.firstRows t (Span.mk 0 t.rowCount).rows := by
        have hrow : r.groups.map (·.rowIndex) = (r.groups.map (·.key)).map (·.row) := by
          rw [List.map_map]
          rfl
        rw [hrow, r.map_key_groups, hkeys hne, GroupingSpec.discovered, List.map_map]
        exact List.map_id' _
      rw [hindexes]
      exact List.Pairwise.sublist (firsts_sublist _) List.pairwise_lt_range'
    · have hdescribes := hr.describes hg
      rwa [hlength] at hdescribes

end

/-- One job over three rows in two groups, NULL among the keys. -/
theorem group_by_one_thread_sample :
    let e : Engine := ⟨⟨1, .localGlobalMerge, .array⟩, .sample, by decide, Or.inl (by decide)⟩
    e.config.threads = 1 ∧ e.config.strategy ≠ .globalMerge ∧
    ∃ r, e.group .sample [0] = .ok r ∧ r.IsGroupBy .sample .sample [0, 1, 2] ∧
      (r.groups.map (·.rowIndex)).Pairwise (· < ·) := by
  intro e
  have hone : e.config.threads = 1 := rfl
  have hlocal : e.config.strategy ≠ .globalMerge := by decide
  obtain ⟨r, hgroup, hr, hordered, -⟩ := group_by_one_thread hone .sample [0]
  exact ⟨hone, hlocal, r, hgroup, hr, hordered hlocal⟩

end Cohort
