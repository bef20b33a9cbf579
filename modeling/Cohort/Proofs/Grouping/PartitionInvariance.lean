import Cohort.Proofs.Grouping.Reading
/-
  PARTITION INVARIANCE: how a table is cut, who groups which part, and in which order the workers
  take their steps does not show in the sorted rows.

  1. **Rows.**  `RowsAgree` compares two rows of results: the key values, and every aggregate whose
     tallies do not depend on the order of their inputs.

  2. **Reduction.**  Two runs are not compared with one another.  Sorted rows of results that cover
     some rows agree with `groupBy` of these rows (`Covers.exists_sortedRows`), which knows nothing
     of spans, strategies and schedules.

  3. **Invariance.**  Every admissible number of threads covers the rows of the whole table, so any
     two runs agree (`sortedRows_partition_invariant`).
-/

namespace Cohort

/-- Lists that agree under a function are related if members that agree are. -/
theorem forall₂_of_map_eq {α β : Type} {S : α → α → Prop} {f : α → β} :
    ∀ {l m : List α}, l.map f = m.map f → (∀ a ∈ l, ∀ b ∈ m, f a = f b → S a b) →
      List.Forall₂ S l m
  | [], [], _, _ => .nil
  | [], _ :: _, h, _ => nomatch h
  | _ :: _, [], h, _ => nomatch h
  | a :: l, b :: m, h, hS => by
    obtain ⟨hab, hrest⟩ := List.cons.inj h
    refine .cons (hS a List.mem_cons_self b List.mem_cons_self hab) ?_
    exact forall₂_of_map_eq hrest fun a' ha' b' hb' =>
      hS a' (List.mem_cons_of_mem a ha') b' (List.mem_cons_of_mem b hb')

section

variable [FloatAddition]

/-- Two rows with the same key values and with the same value of every aggregate whose tallies do
    not depend on the order of their inputs. -/
structure GroupingSpec.RowsAgree (spec : GroupingSpec) (x y : List Scalar × List Scalar) :
    Prop where
  keys : x.1 = y.1
  width : x.2.length = spec.aggregates.length ∧ y.2.length = spec.aggregates.length
  values : ∀ (j : Nat) (a : Aggregate), spec.aggregates[j]? = some a → a.function.IsOrderFree →
    x.2[j]? = y.2[j]?

variable {spec : GroupingSpec} {t : Table} {spans : List Span} {r : Results}

namespace GroupingSpec

/-- A row with the values that `groupBy` asks for, as far as they do not depend on the order. -/
def IsRow (spec : GroupingSpec) (t : Table) (rows : List Nat) (x : List Scalar × List Scalar) :
    Prop :=
  List.Forall₂ (fun a v => a.function.IsOrderFree → v = spec.valueOf t rows x.1 a)
    spec.aggregates x.2

theorem IsRow.agrees {rows : List Nat} {x y : List Scalar × List Scalar} (hx : spec.IsRow t rows x)
    (hy : spec.IsRow t rows y) (hkeys : x.1 = y.1) : spec.RowsAgree x y := by
  refine ⟨hkeys, ⟨hx.length_eq.symm, hy.length_eq.symm⟩, fun j a ha hfree => ?_⟩
  obtain ⟨v, hv, hvx⟩ := getElem?_of_forall₂ hx.flip ha
  obtain ⟨w, hw, hwy⟩ := getElem?_of_forall₂ hy.flip ha
  rw [hv, hw, hvx hfree, hwy hfree, hkeys]

theorem isRow_of_mem_groupBy {rows : List Nat} {x : List Scalar × List Scalar}
    (h : x ∈ spec.groupBy t rows) : spec.IsRow t rows x := by
  obtain ⟨k, -, rfl⟩ := List.mem_map.mp (List.mem_mergeSort.mp h)
  exact List.forall₂_map_right_iff.mpr (List.forall₂_same.mpr fun _ _ _ => rfl)

/-- Rows that agree with a third one agree. -/
theorem RowsAgree.trans {x y z : List Scalar × List Scalar} (h : spec.RowsAgree x y)
    (h' : spec.RowsAgree y z) : spec.RowsAgree x z :=
  ⟨h.keys.trans h'.keys, ⟨h.width.1, h'.width.2⟩,
    fun j a ha hfree => (h.values j a ha hfree).trans (h'.values j a ha hfree)⟩

theorem RowsAgree.symm {x y : List Scalar × List Scalar} (h : spec.RowsAgree x y) :
    spec.RowsAgree y x :=
  ⟨h.keys.symm, h.width.symm, fun j a ha hfree => (h.values j a ha hfree).symm⟩

/-- Lists of rows that agree with a third one agree. -/
theorem agree_of_agree {l m n : List (List Scalar × List Scalar)}
    (h : List.Forall₂ spec.RowsAgree l n) (h' : List.Forall₂ spec.RowsAgree m n) :
    List.Forall₂ spec.RowsAgree l m := by
  induction h generalizing m with
  | nil =>
    cases h'
    exact .nil
  | cons hx _ ih =>
    cases h' with
    | cons hy h' => exact .cons (hx.trans hy.symm) (ih h')

/-- Rows that agree are equal if no aggregate depends on the order. -/
theorem RowsAgree.eq {x y : List Scalar × List Scalar} (h : spec.RowsAgree x y)
    (hfree : ∀ a ∈ spec.aggregates, a.function.IsOrderFree) : x = y := by
  refine Prod.ext h.keys (List.ext_getElem? fun j => ?_)
  by_cases hj : j < spec.aggregates.length
  · have ha := List.getElem?_eq_getElem hj
    exact h.values j _ ha (hfree _ (List.getElem_mem hj))
  · rw [List.getElem?_eq_none (by have := h.width.1; omega),
      List.getElem?_eq_none (by have := h.width.2; omega)]

end GroupingSpec

namespace Results.Covers

/-- The key values of the groups are those that the rows bring. -/
theorem perm_values (hc : r.Covers spec t spans) :
    (r.keys.toList.map (·.values)).Perm
      ((spec.discovered t (spans.flatMap Span.rows)).map (·.values)) := by
  have hnodup : (r.keys.toList.map (·.values)).Nodup := List.pairwise_map.mpr hc.distinct
  have hnodup' : ((spec.discovered t (spans.flatMap Span.rows)).map (·.values)).Nodup :=
    List.pairwise_map.mpr (spec.pairwise_discovered t _)
  refine (List.perm_ext_iff_of_nodup hnodup hnodup').mpr fun values => ?_
  rw [List.mem_map, List.mem_map, spec.exists_mem_discovered_iff]
  constructor
  · rintro ⟨k, hk, hv⟩
    obtain ⟨s, hs, hks⟩ := hc.source k hk
    obtain ⟨row, hrow, hrv⟩ := (spec.exists_mem_discovered_iff t).mp ⟨k, hks, hv⟩
    exact ⟨row, List.mem_flatMap.mpr ⟨s, hs, hrow⟩, hrv⟩
  · rintro ⟨row, hrow, hv⟩
    obtain ⟨s, hs, hrow⟩ := List.mem_flatMap.mp hrow
    obtain ⟨k, hk, hkv⟩ := hc.complete s hs row hrow
    exact ⟨k, hk, hkv.trans hv⟩

/-- **A group has the values that `groupBy` asks for**, all that do not depend on the order. -/
theorem exists_aggregates (hc : r.Covers spec t spans)
    (hrows : (spans.flatMap Span.rows).length < UInt64.size) {g : Group} (hg : g ∈ r.groups) :
    ∃ values, g.aggregates = .ok values ∧
      spec.IsRow t (spans.flatMap Span.rows) (g.keyValues, values) := by
  obtain ⟨hresults, hkey⟩ := Results.mem_groups_iff.mp hg
  have haggregates : g.results.aggregates = spec.aggregates := by rw [hresults, hc.aggregates]
  have hread := Group.exists_aggregates (g := g) (R := fun a v => a.function.IsOrderFree →
    v = spec.valueOf t (spans.flatMap Span.rows) g.keyValues a) ?_
  · rwa [haggregates] at hread
  intro j a ha
  rw [haggregates] at ha
  obtain ⟨xs, tally, hload, hgathers, hperm⟩ := hc.tallies _ _ hkey j a ha
  refine ⟨tally, hresults ▸ hload, fun hfree => ?_⟩
  have hlen : xs.length < UInt64.size := by
    rw [hperm.length_eq]
    exact Nat.lt_of_le_of_lt (spec.length_inputs_members_le t _ _ a) hrows
  rw [hgathers.eq_foldInputs hfree fun _ => hlen, AggregateFunction.foldInputs_perm hfree hperm]
  rfl

/-- **Sorted rows are what `groupBy` asks for**, as far as they do not depend on the order. -/
theorem exists_sortedRows (hc : r.Covers spec t spans)
    (hrows : (spans.flatMap Span.rows).length < UInt64.size) :
    ∃ rows, r.sortedRows = .ok rows ∧
      List.Forall₂ spec.RowsAgree rows (spec.groupBy t (spans.flatMap Span.rows)) := by
  obtain ⟨rows, hsorted, hvalues, hkeys⟩ := Results.exists_sortedRows
    (R := fun keyValues values => spec.IsRow t (spans.flatMap Span.rows) (keyValues, values))
    fun g hg => hc.exists_aggregates hrows hg
  have hasked : (spec.groupBy t (spans.flatMap Span.rows)).map Prod.fst =
      ((spec.discovered t (spans.flatMap Span.rows)).map (·.values)).mergeSort
        Scalar.noGreater := by
    rw [GroupingSpec.groupBy, Results.keys_sortRows, List.map_map]
    rfl
  have hsame : rows.map Prod.fst = (spec.groupBy t (spans.flatMap Span.rows)).map Prod.fst := by
    rw [hkeys, hasked, Scalar.mergeSort_eq_of_perm hc.perm_values]
  refine ⟨rows, hsorted, forall₂_of_map_eq hsame fun x hx y hy => ?_⟩
  exact GroupingSpec.IsRow.agrees (hvalues x hx) (GroupingSpec.isRow_of_mem_groupBy hy)

end Results.Covers

namespace Engine

/-- One run: grouping succeeds, its rows can be read, and they are what `groupBy` asks for. -/
theorem exists_sortedRows {e : Engine} (h : e.config.threads ≤ t.rowCount)
    (hrows : t.rowCount < UInt64.size) (schedule : List Nat) :
    ∃ r rows, e.group t schedule = .ok r ∧ r.sortedRows = .ok rows ∧
      List.Forall₂ e.spec.RowsAgree rows (e.spec.groupBy t (Span.mk 0 t.rowCount).rows) := by
  obtain ⟨r, spans, hgroup, hspans, -, hcovers⟩ := exists_group_covers h schedule
  have hlength : (spans.flatMap Span.rows).length < UInt64.size := by
    rw [hspans.flatMap_rows, Span.length_rows]
    exact hrows
  obtain ⟨rows, hsorted, hagree⟩ := hcovers.exists_sortedRows hlength
  rw [hspans.flatMap_rows] at hagree
  exact ⟨r, rows, hgroup, hsorted, hagree⟩

omit [FloatAddition] in
/-- A configuration with threads makes an engine for a specification that asks for something. -/
theorem exists_create {c : Config} (hpos : 1 ≤ c.threads)
    (hspec : spec.keys ≠ [] ∨ spec.aggregates ≠ []) :
    ∃ e, create c spec = .ok e ∧ e.config = c ∧ e.spec = spec := by
  have hthreads : c.threads ≠ 0 := by omega
  have hsome : ¬ (spec.keys = [] ∧ spec.aggregates = []) := by
    rintro ⟨hkeys, haggregates⟩
    rcases hspec with h | h
    · exact h hkeys
    · exact h haggregates
  refine ⟨⟨c, spec, hthreads, hspec⟩, ?_, rfl, rfl⟩
  rw [create, dif_neg hthreads, dif_neg hsome]

end Engine

/-- **Partition invariance.**  Any two configurations that are admissible for a table, whatever
    their threads, strategies, storage modes and schedules, group it to the same sorted rows: the
    same key values, and the same value of every aggregate whose tallies do not depend on the order
    of their inputs.  These are the values that `groupBy` asks for. -/
theorem sortedRows_partition_invariant {c₁ c₂ : Config}
    (hspec : spec.keys ≠ [] ∨ spec.aggregates ≠ [])
    (h₁ : 1 ≤ c₁.threads ∧ c₁.threads ≤ t.rowCount)
    (h₂ : 1 ≤ c₂.threads ∧ c₂.threads ≤ t.rowCount) (hrows : t.rowCount < UInt64.size)
    (schedule₁ schedule₂ : List Nat) :
    ∃ e₁ e₂ r₁ r₂ rows₁ rows₂,
      Engine.create c₁ spec = .ok e₁ ∧ Engine.create c₂ spec = .ok e₂ ∧
      e₁.group t schedule₁ = .ok r₁ ∧ e₂.group t schedule₂ = .ok r₂ ∧
      r₁.sortedRows = .ok rows₁ ∧ r₂.sortedRows = .ok rows₂ ∧
      List.Forall₂ spec.RowsAgree rows₁ rows₂ ∧
      List.Forall₂ spec.RowsAgree rows₁ (spec.groupBy t (Span.mk 0 t.rowCount).rows) ∧
      ((∀ a ∈ spec.aggregates, a.function.IsOrderFree) → rows₁ = rows₂) := by
  obtain ⟨e₁, hcreate₁, hconfig₁, hspec₁⟩ := Engine.exists_create h₁.1 hspec
  obtain ⟨e₂, hcreate₂, hconfig₂, hspec₂⟩ := Engine.exists_create h₂.1 hspec
  have hle₁ : e₁.config.threads ≤ t.rowCount := by rw [hconfig₁]; exact h₁.2
  have hle₂ : e₂.config.threads ≤ t.rowCount := by rw [hconfig₂]; exact h₂.2
  obtain ⟨r₁, rows₁, hgroup₁, hsorted₁, hagree₁⟩ := Engine.exists_sortedRows hle₁ hrows schedule₁
  obtain ⟨r₂, rows₂, hgroup₂, hsorted₂, hagree₂⟩ := Engine.exists_sortedRows hle₂ hrows schedule₂
  rw [hspec₁] at hagree₁
  rw [hspec₂] at hagree₂
  -- the two runs meet at `groupBy`
  have hagree := GroupingSpec.agree_of_agree hagree₁ hagree₂
  refine ⟨e₁, e₂, r₁, r₂, rows₁, rows₂, hcreate₁, hcreate₂, hgroup₁, hgroup₂, hsorted₁, hsorted₂,
    hagree, hagree₁, fun hfree => ?_⟩
  exact List.forall₂_eq_eq_eq ▸ hagree.imp fun _ _ h => h.eq hfree

end

/-- Two scanners of shared groups and three merged jobs, NULL among the keys. -/
theorem sortedRows_partition_invariant_sample :
    let c₁ : Config := ⟨2, .globalMerge, .list⟩
    let c₂ : Config := ⟨3, .localMerge, .array⟩
    (1 ≤ c₁.threads ∧ c₁.threads ≤ Table.sample.rowCount) ∧
    (1 ≤ c₂.threads ∧ c₂.threads ≤ Table.sample.rowCount) ∧ Table.sample.rowCount < UInt64.size ∧
    ∃ e₁ e₂ r₁ r₂ rows₁ rows₂,
      Engine.create c₁ .sample = .ok e₁ ∧ Engine.create c₂ .sample = .ok e₂ ∧
      e₁.group .sample [1, 0, 0, 1, 1] = .ok r₁ ∧ e₂.group .sample [] = .ok r₂ ∧
      r₁.sortedRows = .ok rows₁ ∧ r₂.sortedRows = .ok rows₂ ∧ rows₁ = rows₂ := by
  intro c₁ c₂
  have h₁ : 1 ≤ c₁.threads ∧ c₁.threads ≤ Table.sample.rowCount := by decide
  have h₂ : 1 ≤ c₂.threads ∧ c₂.threads ≤ Table.sample.rowCount := by decide
  have hrows : Table.sample.rowCount < UInt64.size := by decide
  have hspec : GroupingSpec.sample.keys ≠ [] ∨ GroupingSpec.sample.aggregates ≠ [] :=
    Or.inl (by decide)
  refine ⟨h₁, h₂, hrows, ?_⟩
  obtain ⟨e₁, e₂, r₁, r₂, rows₁, rows₂, he₁, he₂, hr₁, hr₂, hs₁, hs₂, -, -, heq⟩ :=
    sortedRows_partition_invariant hspec h₁ h₂ hrows [1, 0, 0, 1, 1] []
  refine ⟨e₁, e₂, r₁, r₂, rows₁, rows₂, he₁, he₂, hr₁, hr₂, hs₁, hs₂, heq fun a ha => ?_⟩
  have hcases : a = .countRows ∨ a = ⟨⟨.sum, .int64⟩, some (.column 1 .int64 none)⟩ := by
    simpa [GroupingSpec.sample] using ha
  rcases hcases with rfl | rfl
  · rintro ⟨_, hfloat⟩
    cases hfloat
  · rintro ⟨_, hfloat⟩
    cases hfloat

end Cohort
