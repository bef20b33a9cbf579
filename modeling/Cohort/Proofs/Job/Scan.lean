import Cohort.Proofs.Aggregate.Combination
import Cohort.Proofs.Key.Discovery
import Cohort.Proofs.States.Lawful
/-
  What a SCAN leaves in a job: one group per tuple of key values, in the order of discovery, each
  with the fold of its members' inputs.

  1. **Reference.**  A `Ledger` gives a tally for every tuple of key values and every aggregate, and
     `Job.Shows ks τ` says that a job has the groups `ks` with the tallies of the ledger `τ`.  The
     ledger knows no ordinals, so it survives every renumbering; that dictionary and states number
     the groups alike is said once, in `Shows`.  A `Sheet` is a ledger that has lost sight of the
     aggregates and knows them by their numbers.

  2. **Step.**  A row that falls into a known group changes the tallies of its tuple, and any other
     row first opens a group, which is empty (`Shows.scanRow`).

  3. **Run.**  By induction on the rows, from the right: `Shows.scanRows`, `scan_of_isFresh`.
-/

namespace Cohort

/-! ## Tallies of rows -/

namespace Aggregate

variable (a : Aggregate) (t : Table)

/-- Inputs come in the order of the rows. -/
theorem inputs_append (l m : List Nat) : a.inputs t (l ++ m) = a.inputs t l ++ a.inputs t m :=
  List.filterMap_append

theorem inputs_flatMap {α : Type} (l : List α) (rows : α → List Nat) :
    a.inputs t (l.flatMap rows) = l.flatMap fun i => a.inputs t (rows i) :=
  List.filterMap_flatMap ..

/-- One row more brings one input more, or none. -/
theorem inputs_concat (rows : List Nat) (row : Nat) :
    a.inputs t (rows ++ [row]) = a.inputs t rows ++ (a.input? t row).toList := by
  have hone : a.inputs t [row] = (a.input? t row).toList := by
    rw [inputs, List.filterMap_cons]
    cases a.input? t row <;> rfl
  rw [inputs_append, hone]

/-- The rows that contribute, in order. -/
def contributors (rows : List Nat) : List Nat := rows.filter fun row => (a.input? t row).isSome

theorem contributors_cons (row : Nat) (rows : List Nat) :
    a.contributors t (row :: rows) =
      if (a.input? t row).isSome then row :: a.contributors t rows else a.contributors t rows :=
  List.filter_cons

/-- Rows that do not contribute bring no input. -/
theorem inputs_contributors (rows : List Nat) :
    a.inputs t (a.contributors t rows) = a.inputs t rows := by
  induction rows with
  | nil => rfl
  | cons row rows ih =>
    have hcons : ∀ l, a.inputs t (row :: l) = (a.input? t row).toList ++ a.inputs t l := by
      intro l
      rw [inputs, List.filterMap_cons]
      cases a.input? t row <;> rfl
    rw [hcons, contributors_cons]
    cases hrow : a.input? t row with
    | none => exact ih
    | some word =>
      rw [Option.isSome_some, if_pos rfl, hcons, hrow, ih]

/-- A row brings one input at most. -/
theorem length_inputs_le (rows : List Nat) : (a.inputs t rows).length ≤ rows.length :=
  List.length_filterMap_le _ _

variable [FloatAddition]

/-- The tally of some rows: the fold of what they contribute, in order. -/
def tallyOf (rows : List Nat) : Tally := a.function.foldInputs (a.inputs t rows)

theorem tallyOf_nil : a.tallyOf t [] = .empty := rfl

/-- The tally of one row more is the tally of the rows before, updated with that row. -/
theorem tallyOf_concat (rows : List Nat) (row : Nat) :
    a.tallyOf t (rows ++ [row]) = a.updateTally t row (a.tallyOf t rows) := by
  rw [tallyOf, inputs_concat, updateTally]
  cases a.input? t row with
  | none =>
    rw [Option.toList_none, List.append_nil]
    rfl
  | some word => exact a.function.foldInputs_concat (a.inputs t rows) word

end Aggregate

/-! ## Sheets and ledgers -/

/-- The tallies of every tuple of key values, one for each aggregate by its number. -/
abbrev Sheet := List Scalar → List Tally

/-- A tally for every tuple of key values and every aggregate. -/
abbrev Ledger := List Scalar → Aggregate → Tally

namespace Sheet

variable {ρ ρ' : Sheet} {ks : List Key} {o : Nat} {k : Key}

/-- The tallies of groups with these keys. -/
def account (ρ : Sheet) (ks : List Key) : Account := ks.map fun k => some (ρ k.values)

theorem length_account : (ρ.account ks).length = ks.length := List.length_map ..

theorem account_append (l m : List Key) : ρ.account (l ++ m) = ρ.account l ++ ρ.account m :=
  List.map_append

/-- A group finds the tallies of its tuple at its own ordinal. -/
theorem getElem?_account (ho : ks[o]? = some k) :
    (ρ.account ks)[o]? = some (some (ρ k.values)) := by
  rw [account, List.getElem?_map, ho]
  rfl

/-- The tallies of groups look at the tuples of their keys only. -/
theorem account_congr (h : ∀ k ∈ ks, ρ k.values = ρ' k.values) : ρ.account ks = ρ'.account ks :=
  List.map_congr_left fun k hk => congrArg some (h k hk)

/-- Changing one group of keys that differ in their values changes one tuple of the sheet. -/
theorem account_set (hks : ks.Pairwise fun a b => a.values ≠ b.values) (ho : ks[o]? = some k)
    (hother : ∀ values, values ≠ k.values → ρ' values = ρ values) :
    (ρ.account ks).set o (some (ρ' k.values)) = ρ'.account ks := by
  refine List.ext_getElem? fun i => ?_
  obtain ⟨hlt, hk⟩ := List.getElem?_eq_some_iff.mp ho
  by_cases hi : o = i
  · subst hi
    rw [List.getElem?_set_self (length_account ▸ hlt), getElem?_account ho]
  · rw [List.getElem?_set_ne hi]
    cases hki : ks[i]? with
    | none =>
      rw [account, account, List.getElem?_map, List.getElem?_map, hki]
      rfl
    | some k' =>
      have hne : k'.values ≠ k.values := by
        obtain ⟨hlti, hk'⟩ := List.getElem?_eq_some_iff.mp hki
        have hpair := List.pairwise_iff_getElem.mp hks
        rw [← hk, ← hk']
        rcases Nat.lt_or_gt_of_ne hi with h | h
        · exact (hpair o i hlt hlti h).symm
        · exact hpair i o hlti hlt h
      rw [getElem?_account hki, getElem?_account hki, hother _ hne]

end Sheet

namespace GroupingSpec

/-- A ledger as a sheet. -/
def sheet (spec : GroupingSpec) (τ : Ledger) : Sheet := fun values => spec.aggregates.map (τ values)

/-- The tallies of groups with these keys. -/
def account (spec : GroupingSpec) (τ : Ledger) (ks : List Key) : Account :=
  ks.map fun k => some (spec.aggregates.map (τ k.values))

/-- The ledger of some rows. -/
def ledger [FloatAddition] (spec : GroupingSpec) (t : Table) (rows : List Nat) : Ledger :=
  fun values a => a.tallyOf t (spec.members t rows values)

/-- What a row makes of a ledger: it changes the tallies of its own tuple. -/
def afterRow [FloatAddition] (spec : GroupingSpec) (t : Table) (row : Nat) (τ : Ledger) : Ledger :=
  fun values a =>
    if values = spec.valuesAt t row then a.updateTally t row (τ values a) else τ values a

/-- A group has no more inputs than there are rows. -/
theorem length_inputs_members_le (spec : GroupingSpec) (t : Table) (rows : List Nat)
    (values : List Scalar) (a : Aggregate) :
    (a.inputs t (spec.members t rows values)).length ≤ rows.length :=
  Nat.le_trans (a.length_inputs_le t _) (List.length_filter_le _ _)

variable {spec : GroupingSpec} {τ τ' : Ledger} {ks : List Key} {o : Nat} {k : Key}

theorem account_append (l m : List Key) :
    spec.account τ (l ++ m) = spec.account τ l ++ spec.account τ m := List.map_append

/-- A group finds the tallies that the ledger has for its tuple. -/
theorem getElem?_account (ho : ks[o]? = some k) :
    (spec.account τ ks)[o]? = some (some (spec.aggregates.map (τ k.values))) :=
  (Sheet.getElem?_account ho : ((spec.sheet τ).account ks)[o]? = _)

/-- Changing one group of keys that differ in their values changes one tuple of the ledger. -/
theorem account_set (hks : ks.Pairwise fun a b => a.values ≠ b.values) (ho : ks[o]? = some k)
    (hother : ∀ values, values ≠ k.values → τ' values = τ values) :
    (spec.account τ ks).set o (some (spec.aggregates.map (τ' k.values))) = spec.account τ' ks := by
  have hother' : ∀ values, values ≠ k.values → spec.sheet τ' values = spec.sheet τ values :=
    fun values hne => congrArg (spec.aggregates.map ·) (hother values hne)
  exact Sheet.account_set hks ho hother'

variable [FloatAddition] (spec) (t : Table)

/-- A tuple that no row has is empty in the ledger. -/
theorem ledger_of_no_members {rows : List Nat} {values : List Scalar}
    (h : ∀ row ∈ rows, spec.valuesAt t row ≠ values) (a : Aggregate) :
    spec.ledger t rows values a = .empty := by
  have hnone : ¬ ∃ row ∈ rows, spec.valuesAt t row = values := by
    rintro ⟨row, hrow, hv⟩
    exact h row hrow hv
  rw [ledger, spec.members_eq_nil t hnone, Aggregate.tallyOf_nil]

/-- A row updates all tallies of its tuple ... -/
theorem afterRow_self (row : Nat) (τ : Ledger) :
    spec.afterRow t row τ (spec.valuesAt t row) =
      fun a => a.updateTally t row (τ (spec.valuesAt t row) a) :=
  funext fun _ => if_pos rfl

/-- ... and no others. -/
theorem afterRow_other (row : Nat) (τ : Ledger) {values : List Scalar}
    (h : values ≠ spec.valuesAt t row) : spec.afterRow t row τ values = τ values :=
  funext fun _ => if_neg h

/-- The ledger of one row more. -/
theorem ledger_concat (rows : List Nat) (row : Nat) :
    spec.ledger t (rows ++ [row]) = spec.afterRow t row (spec.ledger t rows) := by
  funext values a
  rw [ledger, members_concat, afterRow]
  by_cases h : values = spec.valuesAt t row
  · rw [if_pos h.symm, if_pos h, Aggregate.tallyOf_concat]
    rfl
  · rw [if_neg (Ne.symm h), if_neg h]
    rfl

end GroupingSpec

/-! ## Jobs -/

namespace Job

variable {σ : Type} [LocalStates σ]

/-- A job that has not begun, for a specification and a table. -/
structure IsFresh (spec : GroupingSpec) (t : Table) (job : Job σ) : Prop where
  evaluator : job.evaluator.IsCoherent spec t
  untouched : job = .create job.number job.rows job.evaluator spec.aggregates.length

/-- A job that was just made has not begun. -/
theorem isFresh_create (spec : GroupingSpec) (t : Table) (number : Nat) (rows : Span) :
    (Job.create number rows (.create spec.keys spec.hashValue) spec.aggregates.length :
      Job σ).IsFresh spec t :=
  ⟨KeyEvaluator.isCoherent_create spec t, rfl⟩

variable [FloatAddition] [LawfulStates σ]

/-- A job whose groups are `ks`, by ordinal, with the tallies of a ledger. -/
structure Shows (spec : GroupingSpec) (t : Table) (ks : List Key) (τ : Ledger) (job : Job σ) :
    Prop where
  aggregateCount : job.aggregateCount = spec.aggregates.length
  evaluator : job.evaluator.IsCoherent spec t
  dictionary : job.dictionary = .ofKeys ks
  index : job.dictionary.IsIndex spec
  states : LawfulStates.Holds spec.aggregates.length job.states (spec.account τ ks)

variable {spec : GroupingSpec} {t : Table} {ks : List Key} {τ : Ledger} {job : Job σ}

/-- A fresh job has no groups, so it shows any ledger. -/
theorem IsFresh.shows (h : job.IsFresh spec t) : job.Shows spec t [] τ := by
  have hjob := h.untouched
  refine ⟨?_, h.evaluator, ?_, ?_, ?_⟩
  · rw [hjob]; rfl
  · rw [hjob]; rfl
  · rw [hjob]; exact Dictionary.isIndex_empty spec
  · rw [hjob]; exact LawfulStates.holds_create _ _

namespace Shows

/-- The keys in the dictionary are the groups, in the order of their ordinals. -/
theorem keys (h : job.Shows spec t ks τ) : job.dictionary.keys.toList = ks := by
  rw [h.dictionary, Dictionary.keys_ofKeys]

/-- No two groups have the same key values. -/
theorem distinct (h : job.Shows spec t ks τ) : ks.Pairwise fun a b => a.values ≠ b.values :=
  h.keys ▸ h.index.distinct

/-- A job has as many groups as it shows. -/
theorem size_eq (h : job.Shows spec t ks τ) : job.size = ks.length := by
  rw [← h.keys]
  exact Array.length_toList.symm

/-- The tally of an aggregate in a group is that of the ledger. -/
theorem load_eq (h : job.Shows spec t ks τ) {o i : Nat} {k : Key} {a : Aggregate}
    (ho : ks[o]? = some k) (hi : spec.aggregates[i]? = some a) :
    LocalStates.load job.states i o = .ok (τ k.values a) := by
  rw [LocalStates.load, LawfulStates.tallies_eq h.states (GroupingSpec.getElem?_account ho)]
  have htally : (spec.aggregates.map (τ k.values))[i]? = some (τ k.values a) := by
    rw [List.getElem?_map, hi]
    rfl
  dsimp only [bind, Except.bind]
  rw [htally]

/-- Updating the group of a row brings the row into the ledger. -/
theorem update {row o : Nat} {k : Key} (hks : ks.Pairwise fun a b => a.values ≠ b.values)
    (ho : ks[o]? = some k) (hk : k.values = spec.valuesAt t row) {s : σ}
    (hs : LawfulStates.Holds spec.aggregates.length s (spec.account τ ks)) :
    ∃ s', LocalStates.update spec.aggregates t row o s = .ok s' ∧
      LawfulStates.Holds spec.aggregates.length s' (spec.account (spec.afterRow t row τ) ks) := by
  obtain ⟨s', hs', hholds⟩ :=
    LawfulStates.holds_update spec.aggregates t row hs (GroupingSpec.getElem?_account ho)
  refine ⟨s', hs', ?_⟩
  have htallies : updateTallies spec.aggregates t row (spec.aggregates.map (τ k.values)) =
      spec.aggregates.map (spec.afterRow t row τ k.values) := by
    rw [updateTallies_map, hk, spec.afterRow_self]
  rw [htallies, GroupingSpec.account_set hks ho] at hholds
  · exact hholds
  · intro values hne
    exact spec.afterRow_other t row τ (hk ▸ hne)

/-- **One row more**, whatever the tallies so far, as long as a tuple without a group has none. -/
theorem scanRow (row : Nat) (h : job.Shows spec t ks τ)
    (hnone : (∀ k ∈ ks, k.values ≠ spec.valuesAt t row) →
      ∀ a ∈ spec.aggregates, τ (spec.valuesAt t row) a = .empty) :
    ∃ job', Job.scanRow spec.aggregates t job row = .ok job' ∧
      job'.Shows spec t (ks ++ Key.unseen ks [spec.keyAt t row]) (spec.afterRow t row τ) ∧
      job'.rows = job.rows := by
  have hev := h.evaluator.visit row
  have hfind : job.dictionary.findRemembered (job.evaluator.visit t row) =
      job.dictionary.find (spec.keyAt t row) := by
    rw [Dictionary.findRemembered_eq_find _ _ row, h.evaluator.keyAt_visit]
  have hhash := spec.isHashed_keyAt t row
  cases hf : job.dictionary.find (spec.keyAt t row) with
  | some o =>
    obtain ⟨k, hko, hk⟩ := (h.index.find_eq_some_iff hhash).mp hf
    rw [h.keys] at hko
    obtain ⟨s', hs', hholds⟩ := update h.distinct hko hk h.states
    refine ⟨{ job with evaluator := job.evaluator.visit t row, states := s' }, ?_, ?_, rfl⟩
    · simp only [Job.scanRow, Dictionary.findOrInsert, hfind, hf, Bool.false_eq_true, if_false, hs']
      rfl
    · rw [Key.unseen_of_known ⟨k, List.mem_of_getElem? hko, hk⟩, List.append_nil]
      exact ⟨h.aggregateCount, hev, h.dictionary, h.index, hholds⟩
  | none =>
    have hnew : ∀ k ∈ ks, k.values ≠ spec.valuesAt t row := by
      have hunknown := (h.index.find_eq_none_iff hhash).mp hf
      rw [h.keys] at hunknown
      exact hunknown
    rw [Key.unseen_of_unknown hnew]
    have hindex := h.index.insert hhash hf
    have hdict : job.dictionary.insert (spec.keyAt t row) = .ofKeys (ks ++ [spec.keyAt t row]) := by
      rw [Dictionary.ofKeys_concat, ← h.dictionary]
    -- the new group is empty in the states, and in the ledger
    have hpush := LawfulStates.holds_push h.states
    have hopened : spec.account τ ks ++ [some (List.replicate spec.aggregates.length .empty)] =
        spec.account τ (ks ++ [spec.keyAt t row]) := by
      rw [GroupingSpec.account_append]
      congr 1
      rw [GroupingSpec.account, List.map_singleton, ← List.map_const']
      congr 2
      exact List.map_congr_left fun a ha => (hnone hnew a ha).symm
    rw [hopened] at hpush
    have hlast : (ks ++ [spec.keyAt t row])[job.dictionary.size]? = some (spec.keyAt t row) := by
      have hsize : job.dictionary.size = ks.length := h.size_eq
      rw [hsize, List.getElem?_concat_length]
    have hdistinct : (ks ++ [spec.keyAt t row]).Pairwise fun a b => a.values ≠ b.values := by
      have hpair := hindex.distinct
      rwa [hdict, Dictionary.keys_ofKeys] at hpair
    obtain ⟨s', hs', hholds⟩ := update hdistinct hlast rfl hpush
    refine ⟨{ job with
        evaluator := job.evaluator.visit t row,
        dictionary := job.dictionary.insert (spec.keyAt t row),
        states := s' }, ?_, ?_, rfl⟩
    · simp only [Job.scanRow, Dictionary.findOrInsert, hfind, hf, h.evaluator.keyAt_visit, if_true,
        hs']
      rfl
    · exact ⟨h.aggregateCount, hev, hdict, hindex, hholds⟩

/-- **One row more** of rows that were folded in their order. -/
theorem scanRow_ledger {rows : List Nat} (row : Nat)
    (h : job.Shows spec t (spec.discovered t rows) (spec.ledger t rows)) :
    ∃ job', Job.scanRow spec.aggregates t job row = .ok job' ∧
      job'.Shows spec t (spec.discovered t (rows ++ [row])) (spec.ledger t (rows ++ [row])) ∧
      job'.rows = job.rows := by
  rw [spec.discovered_concat, spec.ledger_concat]
  refine h.scanRow row fun hnew a _ => spec.ledger_of_no_members t (fun r hr hv => ?_) a
  -- a row with these values would have brought a key
  obtain ⟨k, hk, hkv⟩ := (spec.exists_mem_discovered_iff t).mpr ⟨r, hr, hv⟩
  exact hnew k hk hkv

/-- **Any number of rows.** -/
theorem scanRows {rows : List Nat} (more : List Nat)
    (h : job.Shows spec t (spec.discovered t rows) (spec.ledger t rows)) :
    ∃ job', more.foldlM (Job.scanRow spec.aggregates t) job = .ok job' ∧
      job'.Shows spec t (spec.discovered t (rows ++ more)) (spec.ledger t (rows ++ more)) ∧
      job'.rows = job.rows := by
  induction more generalizing rows job with
  | nil => exact ⟨job, rfl, by rwa [List.append_nil], rfl⟩
  | cons row more ih =>
    obtain ⟨next, hnext, hshows, hrows⟩ := h.scanRow_ledger row
    obtain ⟨last, hlast, hshows', hrows'⟩ := ih hshows
    refine ⟨last, ?_, ?_, hrows'.trans hrows⟩
    · rw [List.foldlM_cons, hnext]
      exact hlast
    · rwa [List.append_assoc] at hshows'

end Shows

/-- **A fresh job scans its span.** -/
theorem scan_of_isFresh (h : job.IsFresh spec t) :
    ∃ job', job.scan spec.aggregates t = .ok job' ∧
      job'.Shows spec t (spec.discovered t job.rows.rows) (spec.ledger t job.rows.rows) ∧
      job'.rows = job.rows := by
  have hnone : job.Shows spec t (spec.discovered t []) (spec.ledger t []) := h.shows
  exact hnone.scanRows job.rows.rows

end Job
end Cohort
