import Cohort.Job.MergeTree
import Cohort.Proofs.Job.Scan
import Cohort.Proofs.Partition
/-
  MERGING joins the groups of two jobs by their key values; the merge tree is one scan.

  1. **Join.**  `Sheet.Joins` says, tuple by tuple, what becomes of the tallies when the groups of
     one job are taken over by another: a tuple that both have is folded, a tuple that only the
     other has is moved, and every other tuple stays.  Nothing is asked about what the aggregates of
     the two jobs are; `Ledger.Joins` is what it comes to where they are the same.

  2. **Step and run.**  `Keeps.mergeGroup` takes over one group; `Keeps.mergeGroups` is the
     induction over the groups of the other job.  The invariant is that groups still to come are
     untouched in the states they come from, and that their keys are known now exactly if they were
     known at first.

  3. **Rows.**  `Job.Gathered` says that a job has the groups of some rows.  Merging the job of one
     list of rows into that of another gathers the two lists, one after the other, so any way of
     merging consecutive spans gathers the rows from one end to the other (`mergeTree_gathered`).
-/

namespace Cohort

/-- Work that succeeds on every member of a list succeeds on the list. -/
theorem exists_mapM {α β : Type} {f : α → Except Error β} {R : α → β → Prop} :
    ∀ {l : List α}, (∀ a ∈ l, ∃ b, f a = .ok b ∧ R a b) →
      ∃ bs, l.mapM f = .ok bs ∧ List.Forall₂ R l bs
  | [], _ => ⟨[], rfl, .nil⟩
  | a :: l, h => by
    obtain ⟨b, hb, hab⟩ := h a List.mem_cons_self
    obtain ⟨bs, hbs, hall⟩ := exists_mapM fun a' ha' => h a' (List.mem_cons_of_mem a ha')
    refine ⟨b :: bs, ?_, .cons hab hall⟩
    rw [List.mapM_cons, hb, hbs]
    rfl

/-- No two members of a numbered list have the same number. -/
theorem pairwise_zipIdx {α : Type} (l : List α) : l.zipIdx.Pairwise fun e e' => e.2 ≠ e'.2 := by
  have hpair : (l.zipIdx.map Prod.snd).Pairwise fun o o' => o ≠ o' := by
    rw [List.zipIdx_map_snd]
    exact List.nodup_range'
  rwa [List.pairwise_map] at hpair

/-! ## What becomes of the tallies -/

section

variable [FloatAddition]

/-- What the tallies of groups `ks` become when the groups `ls` are taken over, aggregate by
    aggregate: `n` of them, by number. -/
structure Sheet.Joins (aggregates : List Aggregate) (n : Nat) (ks : List Key) (ρ : Sheet)
    (ls : List Key) (υ ρ' : Sheet) : Prop where
  folded : ∀ l ∈ ls, (∃ k ∈ ks, k.values = l.values) →
    ρ' l.values = foldTallies aggregates (υ l.values) (ρ l.values)
  moved : ∀ l ∈ ls, (∀ k ∈ ks, k.values ≠ l.values) → ρ' l.values = υ l.values ∨
    ρ' l.values = foldTallies aggregates (υ l.values) (List.replicate n .empty)
  kept : ∀ values, (∀ l ∈ ls, l.values ≠ values) → ρ' values = ρ values

/-- What the tallies of groups `ks` become when the groups `ls` are taken over. -/
structure Ledger.Joins (spec : GroupingSpec) (ks : List Key) (τ : Ledger)
    (ls : List Key) (υ τ' : Ledger) : Prop where
  folded : ∀ l ∈ ls, (∃ k ∈ ks, k.values = l.values) → ∀ a ∈ spec.aggregates,
    τ' l.values a = a.function.merge (τ l.values a) (υ l.values a)
  moved : ∀ l ∈ ls, (∀ k ∈ ks, k.values ≠ l.values) → ∀ a ∈ spec.aggregates,
    τ' l.values a = υ l.values a ∨ τ' l.values a = a.function.merge .empty (υ l.values a)
  kept : ∀ values, (∀ l ∈ ls, l.values ≠ values) → τ' values = τ values

variable {ks ls : List Key}

/-- Taking over no groups. -/
theorem Sheet.joins_nil (aggregates : List Aggregate) (n : Nat) (ks : List Key) (ρ υ : Sheet) :
    Sheet.Joins aggregates n ks ρ [] υ ρ :=
  ⟨fun _ hl => absurd hl List.not_mem_nil, fun _ hl => absurd hl List.not_mem_nil, fun _ _ => rfl⟩

/-- Taking over one group, and then others. -/
theorem Sheet.Joins.cons {aggregates : List Aggregate} {n : Nat} {ρ ρ₁ ρ₂ υ : Sheet} {l : Key}
    (hdiffer : ∀ l' ∈ ls, l.values ≠ l'.values)
    (h : Sheet.Joins aggregates n ks ρ [l] υ ρ₁)
    (h' : Sheet.Joins aggregates n (ks ++ Key.unseen ks [l]) ρ₁ ls υ ρ₂) :
    Sheet.Joins aggregates n ks ρ (l :: ls) υ ρ₂ := by
  -- the groups do not meddle with one another, neither the first with those after it...
  have hother : ∀ l' ∈ ls, ρ₁ l'.values = ρ l'.values := fun l' hl' =>
    h.kept l'.values fun k hk => List.mem_singleton.mp hk ▸ hdiffer l' hl'
  -- ... nor they with the first
  have hsame : ρ₂ l.values = ρ₁ l.values :=
    h'.kept l.values fun l' hl' => (hdiffer l' hl').symm
  refine ⟨?_, ?_, ?_⟩
  · intro l' hl' hknown
    rcases List.mem_cons.mp hl' with rfl | hl'
    · rw [hsame]
      exact h.folded l' List.mem_cons_self hknown
    · obtain ⟨k, hk, hv⟩ := hknown
      rw [← hother l' hl']
      exact h'.folded l' hl' ⟨k, List.mem_append_left _ hk, hv⟩
  · intro l' hl' hunknown
    rcases List.mem_cons.mp hl' with rfl | hl'
    · rw [hsame]
      exact h.moved l' List.mem_cons_self hunknown
    · refine h'.moved l' hl' fun k hk => ?_
      rcases List.mem_append.mp hk with hk | hk
      · exact hunknown k hk
      · rw [List.mem_singleton.mp (List.mem_filter.mp hk).1]
        exact hdiffer l' hl'
  · intro values hne
    rw [h'.kept values fun l' hl' => hne l' (List.mem_cons_of_mem _ hl')]
    exact h.kept values fun l' hl' => List.mem_singleton.mp hl' ▸ hne l List.mem_cons_self

/-- Where the tallies on both sides are those of ledgers, so are those that come of them. -/
theorem Sheet.Joins.exists_ledger {spec : GroupingSpec} {τ υ : Ledger} {ρ : Sheet}
    (h : Sheet.Joins spec.aggregates spec.aggregates.length ks (spec.sheet τ) ls (spec.sheet υ) ρ) :
    ∃ τ', ρ = spec.sheet τ' ∧ Ledger.Joins spec ks τ ls υ τ' := by
  have hledger : ∀ values, ∃ g : Aggregate → Tally, ρ values = spec.aggregates.map g ∧
      ((∀ l ∈ ls, l.values ≠ values) → g = τ values) ∧
      ((∃ l ∈ ls, l.values = values) → (∃ k ∈ ks, k.values = values) →
        ∀ a, g a = a.function.merge (τ values a) (υ values a)) ∧
      ((∃ l ∈ ls, l.values = values) → (∀ k ∈ ks, k.values ≠ values) →
        ∀ a, g a = υ values a ∨ g a = a.function.merge .empty (υ values a)) := by
    intro values
    by_cases hl : ∃ l ∈ ls, l.values = values
    · obtain ⟨l, hl, rfl⟩ := hl
      have htaken : ¬∀ l' ∈ ls, l'.values ≠ l.values := fun hnone => hnone l hl rfl
      by_cases hk : ∃ k ∈ ks, k.values = l.values
      · refine ⟨fun a => a.function.merge (τ l.values a) (υ l.values a), ?_,
          fun hnone => absurd hnone htaken, fun _ _ _ => rfl, fun _ hunknown => ?_⟩
        · rw [h.folded l hl hk]
          exact foldTallies_map _ _ _
        · obtain ⟨k, hk, hv⟩ := hk
          exact absurd hv (hunknown k hk)
      · have hunknown : ∀ k ∈ ks, k.values ≠ l.values := fun k hk' hv => hk ⟨k, hk', hv⟩
        rcases h.moved l hl hunknown with hmoved | hmoved
        · exact ⟨υ l.values, hmoved, fun hnone => absurd hnone htaken,
            fun _ hknown => absurd hknown hk, fun _ _ _ => Or.inl rfl⟩
        · refine ⟨fun a => a.function.merge .empty (υ l.values a), ?_,
            fun hnone => absurd hnone htaken, fun _ hknown => absurd hknown hk,
            fun _ _ _ => Or.inr rfl⟩
          rw [hmoved, ← List.map_const']
          exact foldTallies_map _ _ _
    · have hnone : ∀ l ∈ ls, l.values ≠ values := fun l hl' hv => hl ⟨l, hl', hv⟩
      exact ⟨τ values, h.kept values hnone, fun _ => rfl, fun htaken => absurd htaken hl,
        fun htaken => absurd htaken hl⟩
  choose τ' hsheet hkept hfolded hmoved using hledger
  refine ⟨τ', funext hsheet, fun l hl hknown a _ => ?_, fun l hl hunknown a _ => ?_, hkept⟩
  · exact hfolded l.values ⟨l, hl, rfl⟩ hknown a
  · exact hmoved l.values ⟨l, hl, rfl⟩ hunknown a

/-- Where rows `l` brought the groups on one side and rows `m` those on the other: what holds of
    their tallies by the inputs that went into them, holds of an empty one and survives a merge,
    holds of the tallies that come of them. -/
theorem Ledger.Joins.of_rows {spec : GroupingSpec} {t : Table} {l m : List Nat} {τ υ τ' : Ledger}
    {a : Aggregate} {values : List Scalar} {P : List UInt64 → Tally → Prop}
    (h : Ledger.Joins spec (spec.discovered t l) τ (spec.discovered t m) υ τ')
    (ha : a ∈ spec.aggregates) (hempty : P [] .empty)
    (hmerge : ∀ {xs ys x y}, P xs x → P ys y → P (xs ++ ys) (a.function.merge x y))
    (hl : (∃ row ∈ l, spec.valuesAt t row = values) →
      P (a.inputs t (spec.members t l values)) (τ values a))
    (hm : (∃ row ∈ m, spec.valuesAt t row = values) →
      P (a.inputs t (spec.members t m values)) (υ values a))
    (hvalues : ∃ row ∈ l ++ m, spec.valuesAt t row = values) :
    P (a.inputs t (spec.members t (l ++ m) values)) (τ' values a) := by
  rw [spec.members_append, a.inputs_append]
  have hleft : (∃ k ∈ spec.discovered t l, k.values = values) ↔
      ∃ row ∈ l, spec.valuesAt t row = values := spec.exists_mem_discovered_iff t
  have hright : (∃ k ∈ spec.discovered t m, k.values = values) ↔
      ∃ row ∈ m, spec.valuesAt t row = values := spec.exists_mem_discovered_iff t
  -- by which of the two has rows of the group: the other, both, or only the first
  by_cases hinm : ∃ row ∈ m, spec.valuesAt t row = values
  · obtain ⟨k, hk, rfl⟩ := hright.mpr hinm
    by_cases hinl : ∃ row ∈ l, spec.valuesAt t row = k.values
    · rw [h.folded k hk (hleft.mpr hinl) a ha]
      exact hmerge (hl hinl) (hm hinm)
    · have hunknown : ∀ k' ∈ spec.discovered t l, k'.values ≠ k.values :=
        fun k' hk' hv => hinl (hleft.mp ⟨k', hk', hv⟩)
      rw [spec.members_eq_nil t hinl]
      rcases h.moved k hk hunknown a ha with heq | heq
      · rw [heq]
        exact hm hinm
      · rw [heq]
        exact hmerge hempty (hm hinm)
  · have hinl : ∃ row ∈ l, spec.valuesAt t row = values := by
      obtain ⟨row, hrow, hv⟩ := hvalues
      rcases List.mem_append.mp hrow with hrow | hrow
      · exact ⟨row, hrow, hv⟩
      · exact absurd ⟨row, hrow, hv⟩ hinm
    rw [spec.members_eq_nil t hinm, h.kept values fun k hk hv => hinm (hright.mp ⟨k, hk, hv⟩)]
    show P (a.inputs t (spec.members t l values) ++ []) _
    rw [List.append_nil]
    exact hl hinl

end

namespace Job

variable {σ : Type} [FloatAddition] [LocalStates σ] [LawfulStates σ]
variable {spec : GroupingSpec} {t : Table} {ks ls : List Key} {job other : Job σ}

/-- A job of `n` aggregates whose groups are `ks`, by ordinal, with the tallies of a sheet.  What
    the aggregates are is left open. -/
structure Keeps (spec : GroupingSpec) (t : Table) (n : Nat) (ks : List Key) (ρ : Sheet)
    (job : Job σ) : Prop where
  aggregateCount : job.aggregateCount = n
  evaluator : job.evaluator.IsCoherent spec t
  dictionary : job.dictionary = .ofKeys ks
  index : job.dictionary.IsIndex spec
  states : LawfulStates.Holds n job.states (ρ.account ks)

theorem Shows.keeps {τ : Ledger} (h : job.Shows spec t ks τ) :
    job.Keeps spec t spec.aggregates.length ks (spec.sheet τ) :=
  ⟨h.aggregateCount, h.evaluator, h.dictionary, h.index, h.states⟩

namespace Keeps

variable {n : Nat} {ρ υ : Sheet} (aggregates : List Aggregate)

theorem shows {τ : Ledger} (h : job.Keeps spec t spec.aggregates.length ks (spec.sheet τ)) :
    job.Shows spec t ks τ :=
  ⟨h.aggregateCount, h.evaluator, h.dictionary, h.index, h.states⟩

theorem keys (h : job.Keeps spec t n ks ρ) : job.dictionary.keys.toList = ks := by
  rw [h.dictionary, Dictionary.keys_ofKeys]

theorem distinct (h : job.Keeps spec t n ks ρ) : ks.Pairwise fun a b => a.values ≠ b.values :=
  h.keys ▸ h.index.distinct

theorem hashed (h : job.Keeps spec t n ks ρ) {k : Key} (hk : k ∈ ks) : spec.IsHashed k :=
  h.index.hashed k (h.keys.symm ▸ hk)

/-! ## One group -/

/-- **Taking over one group.**  Of the states it comes from, only its own place changes. -/
theorem mergeGroup {source : σ} {gs : Account} {l : Key} {o : Nat} (h : job.Keeps spec t n ks ρ)
    (hsource : LawfulStates.Holds n source gs) (ho : gs[o]? = some (some (υ l.values)))
    (hl : spec.IsHashed l) :
    ∃ job' source' gs' ρ',
      Job.mergeGroup aggregates (job, source) (l, o) = .ok (job', source') ∧
      job'.Keeps spec t n (ks ++ Key.unseen ks [l]) ρ' ∧
      Sheet.Joins aggregates n ks ρ [l] υ ρ' ∧
      job'.rows = job.rows ∧ LawfulStates.Holds n source' gs' ∧
      ∀ o', o ≠ o' → gs'[o']? = gs[o']? := by
  cases hf : job.dictionary.find l with
  | some i =>
    -- the group is known: its tallies take in the other's, in place
    obtain ⟨k, hki, hk⟩ := (h.index.find_eq_some_iff hl).mp hf
    rw [h.keys] at hki
    have hknown : ∃ k ∈ ks, k.values = l.values := ⟨k, List.mem_of_getElem? hki, hk⟩
    obtain ⟨states, hstates, hholds⟩ := LawfulStates.holds_merge aggregates h.states
      (Sheet.getElem?_account hki) hsource ho
    let ρ' : Sheet := Function.update ρ l.values (foldTallies aggregates (υ l.values) (ρ l.values))
    have hself : ρ' l.values = foldTallies aggregates (υ l.values) (ρ l.values) :=
      Function.update_self ..
    have hother : ∀ values, values ≠ l.values → ρ' values = ρ values :=
      fun values hne => Function.update_of_ne hne ..
    refine ⟨{ job with states := states }, source, gs, ρ', ?_, ?_, ⟨?_, ?_, ?_⟩, rfl, hsource,
      fun _ _ => rfl⟩
    · simp only [Job.mergeGroup, hf, hstates]
      rfl
    · rw [Key.unseen_of_known hknown, List.append_nil]
      rw [hk, ← hself, ← hk, Sheet.account_set h.distinct hki (hk ▸ hother)] at hholds
      exact ⟨h.aggregateCount, h.evaluator, h.dictionary, h.index, hholds⟩
    · intro l' hl' _
      rw [List.mem_singleton.mp hl']
      exact hself
    · intro l' hl' hunknown
      rw [List.mem_singleton.mp hl'] at hunknown
      exact absurd hk (hunknown k (List.mem_of_getElem? hki))
    · exact fun values hne => hother values (Ne.symm (hne l List.mem_cons_self))
  | none =>
    -- the group is new: it is moved to the end, and its old place is empty from then on
    have hunknown := (h.index.find_eq_none_iff hl).mp hf
    rw [h.keys] at hunknown
    obtain ⟨states, source', us, happend, hholds, hsource', hus⟩ :=
      LawfulStates.holds_append aggregates h.states hsource ho
    let ρ' : Sheet := Function.update ρ l.values us
    have hself : ρ' l.values = us := Function.update_self ..
    have hother : ∀ values, values ≠ l.values → ρ' values = ρ values :=
      fun values hne => Function.update_of_ne hne ..
    refine ⟨{ job with states := states, dictionary := job.dictionary.insert l }, source',
      gs.set o none, ρ', ?_, ?_, ⟨?_, ?_, ?_⟩, rfl, hsource',
      fun o' hne => List.getElem?_set_ne hne⟩
    · simp only [Job.mergeGroup, hf, happend]
      rfl
    · rw [Key.unseen_of_unknown hunknown]
      refine ⟨h.aggregateCount, h.evaluator, ?_, h.index.insert hl hf, ?_⟩
      · rw [Dictionary.ofKeys_concat, ← h.dictionary]
      · have haccount : ρ'.account (ks ++ [l]) = ρ.account ks ++ [some us] := by
          rw [Sheet.account_append, ← hself]
          congr 1
          exact Sheet.account_congr fun k hk => hother k.values (hunknown k hk)
        rw [haccount]
        exact hholds
    · intro l' hl' hknown
      obtain ⟨k, hk, hv⟩ := hknown
      rw [List.mem_singleton.mp hl'] at hv
      exact absurd hv (hunknown k hk)
    · intro l' hl' _
      rw [List.mem_singleton.mp hl', hself]
      exact hus
    · exact fun values hne => hother values (Ne.symm (hne l List.mem_cons_self))

/-! ## All groups -/

/-- **Taking over groups one after the other.**  Each of them is where its number says. -/
theorem mergeGroups {source : σ} {gs : Account} (entries : List (Key × Nat))
    (h : job.Keeps spec t n ks ρ) (hsource : LawfulStates.Holds n source gs)
    (hentries : ∀ e ∈ entries, gs[e.2]? = some (some (υ e.1.values)) ∧ spec.IsHashed e.1)
    (hplaces : entries.Pairwise fun e e' => e.2 ≠ e'.2)
    (hdistinct : entries.Pairwise fun e e' => e.1.values ≠ e'.1.values) :
    ∃ job' source' ρ',
      entries.foldlM (Job.mergeGroup aggregates) (job, source) = .ok (job', source') ∧
      job'.Keeps spec t n (ks ++ Key.unseen ks (entries.map Prod.fst)) ρ' ∧
      Sheet.Joins aggregates n ks ρ (entries.map Prod.fst) υ ρ' ∧ job'.rows = job.rows := by
  induction entries generalizing job source gs ks ρ with
  | nil =>
    refine ⟨job, source, ρ, rfl, ?_, Sheet.joins_nil .., rfl⟩
    rw [List.map_nil, Key.unseen_nil, List.append_nil]
    exact h
  | cons e rest ih =>
    obtain ⟨l, o⟩ := e
    obtain ⟨hplace, hplaces⟩ := List.pairwise_cons.mp hplaces
    obtain ⟨hdiffer, hdistinct⟩ := List.pairwise_cons.mp hdistinct
    obtain ⟨ho, hl⟩ := hentries (l, o) List.mem_cons_self
    obtain ⟨next, source₁, gs₁, ρ₁, hstep, hkeeps, hjoins, hrows, hsource₁, hplaces₁⟩ :=
      h.mergeGroup aggregates hsource ho hl
    obtain ⟨last, source₂, ρ₂, hrun, hkeeps', hjoins', hrows'⟩ := ih hkeeps hsource₁
      (fun e he => by
        obtain ⟨hplaced, hhashed⟩ := hentries e (List.mem_cons_of_mem _ he)
        exact ⟨(hplaces₁ e.2 (hplace e he)).trans hplaced, hhashed⟩)
      hplaces hdistinct
    have hdiffer' : ∀ l' ∈ rest.map Prod.fst, l.values ≠ l'.values := by
      intro l' hl'
      obtain ⟨e, he, rfl⟩ := List.mem_map.mp hl'
      exact hdiffer e he
    refine ⟨last, source₂, ρ₂, ?_, ?_, hjoins.cons hdiffer' hjoins', hrows'.trans hrows⟩
    · rw [List.foldlM_cons, hstep]
      exact hrun
    · rw [List.map_cons, Key.unseen_cons hdiffer']
      exact hkeeps'

/-- **Merging joins two jobs**, whatever their aggregates, as long as they have as many of them and
    hash keys alike.  The keys of the first keep their ordinals, those that only the other has
    follow in the order they had there. -/
theorem mergeFrom {spec' : GroupingSpec} (h : job.Keeps spec t n ks ρ)
    (hother : other.Keeps spec' t n ls υ) (hhash : spec'.hashValue = spec.hashValue) :
    ∃ job' ρ', job.mergeFrom aggregates other = .ok job' ∧
      job'.Keeps spec t n (ks ++ Key.unseen ks ls) ρ' ∧ Sheet.Joins aggregates n ks ρ ls υ ρ' ∧
      job'.rows = job.rows.hull other.rows := by
  have hroomy : Keeps spec t n ks ρ
      { job with states := LocalStates.reserve other.size job.states } :=
    ⟨h.aggregateCount, h.evaluator, h.dictionary, h.index,
      LawfulStates.holds_reserve other.size h.states⟩
  have hkeys : ls.zipIdx.map Prod.fst = ls := List.zipIdx_map_fst 0 ls
  have hvalues : ls.zipIdx.Pairwise fun e e' => e.1.values ≠ e'.1.values := by
    have hpair : (ls.zipIdx.map Prod.fst).Pairwise fun a b => a.values ≠ b.values := by
      rw [hkeys]
      exact hother.distinct
    rwa [List.pairwise_map] at hpair
  have hhashed : ∀ l ∈ ls, spec.IsHashed l := by
    intro l hl
    rw [GroupingSpec.IsHashed, ← hhash]
    exact hother.hashed hl
  obtain ⟨last, source, ρ', hrun, hkeeps, hjoins, hrows⟩ := hroomy.mergeGroups aggregates ls.zipIdx
    hother.states (fun e he => by
      have he' := List.mem_zipIdx_iff_getElem?.mp he
      exact ⟨Sheet.getElem?_account he', hhashed e.1 (List.mem_of_getElem? he')⟩)
    (pairwise_zipIdx ls) hvalues
  rw [hkeys] at hkeeps hjoins
  refine ⟨{ last with rows := job.rows.hull other.rows }, ρ', ?_, ?_, hjoins, rfl⟩
  · have hcount : job.aggregateCount = other.aggregateCount :=
      h.aggregateCount.trans hother.aggregateCount.symm
    rw [Job.mergeFrom, if_neg (not_not_intro hcount), hother.keys]
    dsimp only
    rw [hrun]
    rfl
  · exact ⟨hkeeps.aggregateCount, hkeeps.evaluator, hkeeps.dictionary, hkeeps.index,
      hkeeps.states⟩

end Keeps

variable {τ υ : Ledger}

/-- **Merging joins two jobs** of one specification. -/
theorem Shows.mergeFrom (h : job.Shows spec t ks τ) (hother : other.Shows spec t ls υ) :
    ∃ job' τ', job.mergeFrom spec.aggregates other = .ok job' ∧
      job'.Shows spec t (ks ++ Key.unseen ks ls) τ' ∧ Ledger.Joins spec ks τ ls υ τ' ∧
      job'.rows = job.rows.hull other.rows := by
  obtain ⟨job', ρ', hmerge, hkeeps, hjoins, hrows⟩ :=
    h.keeps.mergeFrom spec.aggregates hother.keeps rfl
  obtain ⟨τ', rfl, hjoins'⟩ := hjoins.exists_ledger
  exact ⟨job', τ', hmerge, hkeeps.shows, hjoins', hrows⟩

/-! ## Groups of rows -/

/-- A job with the groups of some rows, every tally gathered from the members of its group. -/
def Gathered (spec : GroupingSpec) (t : Table) (rows : List Nat) (job : Job σ) : Prop :=
  ∃ τ, job.Shows spec t (spec.discovered t rows) τ ∧
    ∀ values, (∃ row ∈ rows, spec.valuesAt t row = values) → ∀ a ∈ spec.aggregates,
      a.function.Gathers (a.inputs t (spec.members t rows values)) (τ values a)

theorem Shows.gathered {rows : List Nat}
    (h : job.Shows spec t (spec.discovered t rows) (spec.ledger t rows)) :
    job.Gathered spec t rows :=
  ⟨spec.ledger t rows, h, fun _ _ _ _ => .fold _⟩

namespace Gathered

variable {l m : List Nat}

/-- **Merging gathers the rows of both jobs**, those of the first before those of the other. -/
theorem mergeFrom (h : job.Gathered spec t l) (hother : other.Gathered spec t m) :
    ∃ job', job.mergeFrom spec.aggregates other = .ok job' ∧ job'.Gathered spec t (l ++ m) ∧
      job'.rows = job.rows.hull other.rows := by
  obtain ⟨τ, hshows, hτ⟩ := h
  obtain ⟨υ, hshows', hυ⟩ := hother
  obtain ⟨job', τ', hmerge, hmerged, hjoins, hrows⟩ := hshows.mergeFrom hshows'
  refine ⟨job', hmerge, ⟨τ', ?_, fun values hvalues a ha => ?_⟩, hrows⟩
  · rw [spec.discovered_append]
    exact hmerged
  · exact hjoins.of_rows ha (.fold []) .merge (fun hl => hτ values hl a ha)
      (fun hm => hυ values hm a ha) hvalues

/-- What was gathered has been folded, for a function whose tallies do not depend on the order. -/
theorem load_eq (h : job.Gathered spec t l) {o i : Nat} {k : Key} {a : Aggregate}
    (ho : (spec.discovered t l)[o]? = some k) (hi : spec.aggregates[i]? = some a) :
    ∃ tally, LocalStates.load job.states i o = .ok tally ∧
      a.function.Gathers (a.inputs t (spec.members t l k.values)) tally := by
  obtain ⟨τ, hshows, hτ⟩ := h
  refine ⟨τ k.values a, hshows.load_eq ho hi, hτ k.values ?_ a (List.mem_of_getElem? hi)⟩
  exact (spec.exists_mem_discovered_iff t).mp ⟨k, List.mem_of_getElem? ho, rfl⟩

theorem dictionary_eq (h : job.Gathered spec t l) :
    job.dictionary = .ofKeys (spec.discovered t l) := by
  obtain ⟨τ, hshows, -⟩ := h
  exact hshows.dictionary

end Gathered

/-! ## Many jobs -/

/-- Fresh jobs are scanned one by one. -/
theorem mapM_scan (jobs : List (Job σ)) (hfresh : ∀ job ∈ jobs, job.IsFresh spec t) :
    ∃ scanned, jobs.mapM (scan spec.aggregates t) = .ok scanned ∧
      List.Forall₂ (fun job job' => job'.Shows spec t (spec.discovered t job.rows.rows)
        (spec.ledger t job.rows.rows) ∧ job'.rows = job.rows) jobs scanned :=
  exists_mapM fun job hjob => scan_of_isFresh (hfresh job hjob)

/-- Merging scanned jobs from left to right into a job of the rows before them. -/
theorem foldlM_mergeFrom {a b c : Nat} {jobs scanned : List (Job σ)} (hab : a ≤ b)
    (h : job.Gathered spec t (Span.mk a b).rows) (hrows : job.rows = ⟨a, b⟩)
    (hjobs : Consecutive b (jobs.map (·.rows)) c)
    (hscanned : List.Forall₂ (fun job job' => job'.Shows spec t (spec.discovered t job.rows.rows)
        (spec.ledger t job.rows.rows) ∧ job'.rows = job.rows) jobs scanned) :
    ∃ merged, scanned.foldlM (mergeFrom spec.aggregates) job = .ok merged ∧
      merged.Gathered spec t (Span.mk a c).rows ∧ merged.rows = ⟨a, c⟩ := by
  induction hscanned generalizing job b with
  | nil =>
    have hbc : b = c := hjobs
    subst hbc
    exact ⟨job, rfl, h, hrows⟩
  | @cons next next' jobs scanned hnext _ ih =>
    obtain ⟨hstart, hle, hjobs⟩ := hjobs
    have hspan : next.rows = ⟨b, next.rows.stop⟩ := by rw [← hstart]
    obtain ⟨hshows, hnextRows⟩ := hnext
    obtain ⟨joined, hmerge, hgathered, hjoined⟩ := h.mergeFrom hshows.gathered
    rw [hspan, Consecutive.rows_append hab hle] at hgathered
    rw [hrows, hnextRows, hspan, Span.hull, Nat.min_eq_left hab, Nat.max_eq_right hle] at hjoined
    obtain ⟨merged, hrun, hmerged⟩ := ih (Nat.le_trans hab hle) hgathered hjoined hjobs
    refine ⟨merged, ?_, hmerged⟩
    rw [List.foldlM_cons, hmerge]
    exact hrun

omit [FloatAddition] [LawfulStates σ] in
/-- A single job is not merged. -/
theorem mergeTree_singleton (aggregates : List Aggregate) (t : Table) (job : Job σ) :
    mergeTree aggregates t [job] = job.scan aggregates t := by
  have hleaf : [job].length ≤ leafJobs := by
    show 1 ≤ 3
    omega
  rw [mergeTree, if_pos hleaf, mergeLeaf, List.mapM_cons, List.mapM_nil]
  cases job.scan aggregates t <;> rfl

/-- **The merge tree gathers the rows from one end to the other**, whatever its shape. -/
theorem mergeTree_gathered (jobs : List (Job σ)) (hne : jobs ≠ [])
    (hfresh : ∀ job ∈ jobs, job.IsFresh spec t) {a b : Nat}
    (hjobs : Consecutive a (jobs.map (·.rows)) b) :
    ∃ merged, mergeTree spec.aggregates t jobs = .ok merged ∧
      merged.Gathered spec t (Span.mk a b).rows ∧ merged.rows = ⟨a, b⟩ := by
  fun_induction mergeTree spec.aggregates t jobs generalizing a b with
  | case1 jobs hleaf =>
    obtain ⟨scanned, hmap, hall⟩ := mapM_scan jobs hfresh
    rw [mergeLeaf, hmap]
    cases hall with
    | nil => exact absurd rfl hne
    | @cons first first' jobs scanned hfirst hothers =>
      obtain ⟨hstart, hle, hjobs⟩ := hjobs
      have hspan : first.rows = ⟨a, first.rows.stop⟩ := by rw [← hstart]
      obtain ⟨hshows, hrows⟩ := hfirst
      have hgathered := hshows.gathered
      rw [hspan] at hgathered hrows
      exact foldlM_mergeFrom hle hgathered hrows hjobs hothers
  | case2 jobs hlarge half ihl ihr =>
    -- there are more jobs than a leaf takes, so both halves have some, and fewer
    have hhalf : 0 < half ∧ half < jobs.length := by
      simp only [half, leafJobs] at hlarge ⊢
      omega
    rw [← List.take_append_drop half jobs, List.map_append] at hjobs
    obtain ⟨c, hleft, hright⟩ := Consecutive.append_iff.mp hjobs
    have hnel : jobs.take half ≠ [] := by
      intro hnil
      have hlength := congrArg List.length hnil
      rw [List.length_take, List.length_nil] at hlength
      omega
    have hner : jobs.drop half ≠ [] := by
      intro hnil
      have hlength := congrArg List.length hnil
      rw [List.length_drop, List.length_nil] at hlength
      omega
    obtain ⟨left, hl, hgl, hrl⟩ := ihl hnel (fun j hj => hfresh j (List.mem_of_mem_take hj)) hleft
    obtain ⟨right, hr, hgr, hrr⟩ :=
      ihr hner (fun j hj => hfresh j (List.mem_of_mem_drop hj)) hright
    obtain ⟨merged, hmerge, hgathered, hrows⟩ := hgl.mergeFrom hgr
    refine ⟨merged, ?_, ?_, ?_⟩
    · rw [hl, hr]
      exact hmerge
    · rw [Consecutive.rows_append hleft.le hright.le] at hgathered
      exact hgathered
    · rw [hrows, hrl, hrr, Span.hull, Nat.min_eq_left hleft.le, Nat.max_eq_right hright.le]

end Job
end Cohort
