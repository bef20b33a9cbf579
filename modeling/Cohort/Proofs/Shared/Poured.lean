import Mathlib.Algebra.GroupWithZero.Nat
import Mathlib.Data.List.Nodup
import Cohort.Proofs.Job.Merge
import Cohort.Proofs.Lockstep
import Cohort.Proofs.Shared.Flush
import Cohort.Proofs.States.Layouts
/-
  When all flushers are DONE, nothing is lost and nothing is there twice.

  1. **Blocks.**  A flusher that is done has one whole block for every group it started from, and
     the slots of its blocks differ.  So its deeds at the slot of a group are the deeds of that one
     block: a donation, or a meeting and one fold per aggregate (`deedsAt_eq`).

  2. **Contributors.**  Hence the donor of a slot and those who folded into it are exactly the
     flushers that had a group of that key, each once (`Poured`).

  3. **Whole groups.**  If every flusher started from the rows of a job, the tally of a slot gathers
     the rows of all jobs, in the order in which the flushers came by.
-/

namespace Cohort

/-! ## Parts of a range -/

/-- Visiting the members of a range that have something to say is visiting them all. -/
theorem flatMap_perm_range {β : Type} {n : Nat} {F : Nat → List β} {P : Nat → Prop} {l : List Nat}
    (hl : l.Nodup) (hmem : ∀ i, i ∈ l ↔ i < n ∧ P i) (hnone : ∀ i, ¬ P i → F i = []) :
    (l.flatMap F).Perm ((List.range n).flatMap F) := by
  classical
  have hpart : l.Perm ((List.range n).filter fun i => P i) := by
    refine (List.perm_ext_iff_of_nodup hl (List.nodup_range.filter _)).mpr fun i => ?_
    rw [hmem, List.mem_filter, List.mem_range, decide_eq_true_eq]
  have hwhole : ∀ m : List Nat, (m.filter fun i => P i).flatMap F = m.flatMap F := by
    intro m
    induction m with
    | nil => rfl
    | cons i m ih =>
      rw [List.filter_cons, List.flatMap_cons]
      by_cases hi : P i
      · rw [if_pos (decide_eq_true hi), List.flatMap_cons, ih]
      · rw [if_neg (by rwa [decide_eq_true_eq]), ih, hnone i hi, List.nil_append]
  exact hwhole (List.range n) ▸ hpart.flatMap_right F

namespace Flusher

/-! ## Blocks -/

/-- The deeds of one worker at one slot, in order. -/
def deedsAt (h : History) (i slot : Nat) : List Deed :=
  (Crew.ofWorker i h).filter fun d => d.slot = slot

theorem Block.slot_of_mem_deeds {n : Nat} {b : Block} {d : Deed} (h : d ∈ b.deeds n) :
    d.slot = b.slot := by
  unfold deeds at h
  split at h
  · rw [List.mem_singleton.mp h]
    rfl
  · rcases List.mem_cons.mp h with rfl | h
    · rfl
    · obtain ⟨j, -, rfl⟩ := List.mem_map.mp h
      rfl

/-- What is done at a slot that no block has. -/
theorem filter_deeds_eq_nil {n s : Nat} {blocks : List Block} (h : ∀ b ∈ blocks, b.slot ≠ s) :
    ((blocks.flatMap (Block.deeds n)).filter fun d => d.slot = s) = [] := by
  refine List.filter_eq_nil_iff.mpr fun d hd => ?_
  obtain ⟨b, hb, hdb⟩ := List.mem_flatMap.mp hd
  rw [Block.slot_of_mem_deeds hdb, decide_eq_true_eq]
  exact h b hb

/-- What is done at the slot of a block, if no two blocks have the same slot. -/
theorem filter_deeds_eq {n : Nat} {blocks : List Block}
    (hslots : blocks.Pairwise fun b b' => b.slot ≠ b'.slot) {b : Block} (hb : b ∈ blocks) :
    ((blocks.flatMap (Block.deeds n)).filter fun d => d.slot = b.slot) = b.deeds n := by
  induction blocks with
  | nil => exact absurd hb List.not_mem_nil
  | cons c blocks ih =>
    obtain ⟨hc, hslots⟩ := List.pairwise_cons.mp hslots
    rw [List.flatMap_cons, List.filter_append]
    rcases List.mem_cons.mp hb with rfl | hb
    · have hown : ((b.deeds n).filter fun d => d.slot = b.slot) = b.deeds n :=
        List.filter_eq_self.mpr fun d hd => decide_eq_true (Block.slot_of_mem_deeds hd)
      rw [hown, filter_deeds_eq_nil fun b' hb' => (hc b' hb').symm, List.append_nil]
    · have hother : ((c.deeds n).filter fun d => d.slot = b.slot) = [] := by
        refine List.filter_eq_nil_iff.mpr fun d hd => ?_
        rw [Block.slot_of_mem_deeds hd, decide_eq_true_eq]
        exact hc b hb
      rw [hother, List.nil_append, ih hslots hb]

/-- A block of a group that was met folds every aggregate once. -/
theorem count_folds {n s j : Nat} (hj : j < n) :
    ((List.range n).map (Deed.fold s)).count (.fold s j) = 1 := by
  refine List.count_eq_one_of_mem (List.nodup_range.map ?_) ?_
  · intro a b hab
    cases hab
    rfl
  · exact List.mem_map_of_mem (List.mem_range.mpr hj)

/-- How often a worker folded an aggregate at a slot. -/
theorem count_folders_eq (h : History) (i s j : Nat) :
    (folders h s j).count i = (deedsAt h i s).count (.fold s j) := by
  rw [count_folders, deedsAt, List.count_filter (by rw [decide_eq_true_eq]; rfl)]

/-- No slot is donated by two workers. -/
theorem donor_unique {h : History} (hnodup : (donations h).Nodup) {i i' s : Nat}
    (hi : (i, Deed.donate s) ∈ h) (hi' : (i', Deed.donate s) ∈ h) : i = i' := by
  induction h with
  | nil => exact absurd hi List.not_mem_nil
  | cons e h ih =>
    have hcons : donations (e :: h) = (e.2.donated?).toList ++ donations h := by
      rw [donations, List.filterMap_cons]
      cases e.2.donated? <;> rfl
    have hmem : ∀ {j : Nat}, (j, Deed.donate s) ∈ h → s ∈ donations h :=
      fun hj => List.mem_filterMap.mpr ⟨_, hj, rfl⟩
    rw [hcons] at hnodup
    -- a donation that is made now is not made again later
    have hfresh : e.2 = .donate s → s ∉ donations h := by
      intro he hs
      rw [he] at hnodup
      exact (List.nodup_cons.mp hnodup).1 hs
    rcases List.mem_cons.mp hi with heq | hi <;> rcases List.mem_cons.mp hi' with heq' | hi'
    · exact congrArg Prod.fst (heq.trans heq'.symm)
    · exact absurd (hmem hi') (hfresh (heq ▸ rfl))
    · exact absurd (hmem hi) (hfresh (heq' ▸ rfl))
    · exact ih (List.nodup_append.mp hnodup).2.1 hi hi'

/-! ## The end -/

section End

variable {σ : Type}

/-- A flusher with nothing left to pour. -/
def IsDone (w : Flusher σ) : Prop := w.visits = [] ∧ w.pending = []

theorem isDone_of_cost {aggregates : List Aggregate} {w : Flusher σ}
    (h : cost aggregates w = 0) : w.IsDone := by
  have hparts := Nat.add_eq_zero_iff.mp h
  refine ⟨List.length_eq_zero_iff.mp hparts.1, List.length_eq_zero_iff.mp ?_⟩
  rcases Nat.mul_eq_zero.mp hparts.2 with hzero | hzero
  · exact hzero
  · omega

variable [FloatAddition] [LocalStates σ]

omit [FloatAddition] in
/-- Beginning a group leaves at most one visit per aggregate to do. -/
theorem visits_of_beginGroup {aggregates : List Aggregate} {w w' : Flusher σ} {k : Key} {o : Nat}
    {g g' : SharedGroups} (h : beginGroup aggregates w k o g = .ok (w', g'))
    (hvisits : w.visits = []) :
    w'.visits.length ≤ aggregates.length ∧ w'.pending = w.pending := by
  unfold beginGroup at h
  split at h
  · cases htake : LocalStates.take o w.states with
    | error e =>
      rw [htake] at h
      cases h
    | ok taken =>
      rw [htake] at h
      cases h
      refine ⟨?_, rfl⟩
      show w.visits.length ≤ _
      rw [hvisits]
      exact Nat.zero_le _
  · cases htallies : LocalStates.tallies w.states o with
    | error e =>
      rw [htallies] at h
      cases h
    | ok tallies =>
      rw [htallies] at h
      cases h
      refine ⟨?_, rfl⟩
      show (foldVisits _ _ _).length ≤ _
      rw [foldVisits, List.length_map, List.length_zipIdx, List.length_zip]
      exact Nat.min_le_left _ _

/-- Every step lowers the bound on the steps still to take. -/
theorem cost_of_step {aggregates : List Aggregate} {w w' : Flusher σ} {g g' : SharedGroups}
    (h : step aggregates w g = .ok (w', g')) : cost aggregates w' ≤ cost aggregates w - 1 := by
  unfold step at h
  split at h
  case h_1 v rest hvisits =>
    cases h
    rw [cost, cost, hvisits, List.length_cons]
    show rest.length + w.pending.length * _ ≤ _
    omega
  case h_2 hvisits =>
    split at h
    case h_1 hpending =>
      cases h
      have hzero : cost aggregates w = 0 := by
        rw [cost, hvisits, hpending, List.length_nil, List.length_nil, Nat.zero_mul]
      omega
    case h_2 k o rest hpending =>
      have hbefore : cost aggregates w = rest.length * (1 + aggregates.length) +
          (1 + aggregates.length) := by
        rw [cost, hvisits, hpending, List.length_cons, Nat.succ_mul]
        exact Nat.zero_add _
      obtain ⟨hlength, hrest⟩ := visits_of_beginGroup h hvisits
      have hpending' : w'.pending = rest := hrest
      rw [hbefore, cost, hpending']
      omega

/-! ## From the start to the end -/

variable [LawfulStates σ]
variable {spec : GroupingSpec} {t : Table} {ks : Nat → List Key} {τ : Nat → Ledger}
variable {workers : Nat} {h : History} {c : Crew (Flusher σ) SharedGroups}

/-- The flushers of some jobs, before the first step. -/
def crew (jobs : List (Job σ)) : Crew (Flusher σ) SharedGroups := ⟨jobs.map ofJob, .empty⟩

theorem holds_crew {jobs : List (Job σ)}
    (hjobs : ∀ i (job : Job σ), jobs[i]? = some job → job.Shows spec t (ks i) (τ i)) :
    Crew.Holds (Common spec ks τ jobs.length) (Own spec ks τ jobs.length) [] (crew jobs) := by
  refine ⟨⟨Dictionary.isIndex_empty spec, nofun, rfl, nofun, nofun, nofun⟩, fun i w hi => ?_⟩
  obtain ⟨job, hjob, rfl⟩ : ∃ job, jobs[i]? = some job ∧ ofJob job = w := by
    rw [crew, List.getElem?_map] at hi
    exact Option.map_eq_some_iff.mp hi
  have hshows := hjobs i job hjob
  have hpending : (ofJob job).pending = (ks i).zipIdx := by
    rw [ofJob, hshows.keys]
  refine ⟨(List.getElem?_eq_some_iff.mp hjob).1, ⟨_, hshows.states, fun e he => ?_⟩, ?_,
    ⟨[], ?_, rfl, nofun⟩, nofun, rfl⟩
  · rw [hpending] at he
    exact GroupingSpec.getElem?_account (List.mem_zipIdx_iff_getElem?.mp he)
  · rw [hpending]
    exact pairwise_zipIdx (ks i)
  · rw [hpending, List.zipIdx_map_fst]
    rfl

/-- What there is when all flushers are done, flusher number `i` having started from the groups
    `ks i` with the tallies `τ i`. -/
structure Poured (spec : GroupingSpec) (ks : Nat → List Key) (τ : Nat → Ledger) (workers : Nat)
    (h : History) (c : Crew (Flusher σ) SharedGroups) : Prop where
  /-- No two entries have the same key values. -/
  distinct : c.shared.dictionary.keys.toList.Pairwise fun a b => a.values ≠ b.values
  /-- There is an entry for the key values of every group, and no other. -/
  covered : ∀ values, (∃ k ∈ c.shared.dictionary.keys.toList, k.values = values) ↔
    ∃ i < workers, ∃ k ∈ ks i, k.values = values
  /-- An entry has the key of the group that was donated. -/
  source : ∀ k ∈ c.shared.dictionary.keys.toList, ∃ i < workers, k ∈ ks i
  /-- Every group was donated, or was met and folded, aggregate by aggregate: once, never both. -/
  once : ∀ i < workers, ∀ k ∈ ks i, ∃ s, c.shared.find k = some s ∧
    (deedsAt h i s = [.donate s] ∨
      deedsAt h i s = .meet s :: (List.range spec.aggregates.length).map (.fold s))
  /-- A tally is the donor's, merged with those of all others with the key, each once, in the order
      in which they folded. -/
  tallies : ∀ s k, c.shared.dictionary.keys.toList[s]? = some k → ∃ donor,
    (donor, Deed.donate s) ∈ h ∧ ∀ j a, spec.aggregates[j]? = some a →
      SharedGroups.load c.shared j s = .ok ((folders h s j).foldl
        (fun t i => a.function.merge t (τ i k.values a)) (τ donor k.values a)) ∧
      (donor :: folders h s j).Nodup ∧
      ∀ i, i ∈ donor :: folders h s j ↔ i < workers ∧ ∃ k' ∈ ks i, k'.values = k.values
  /-- The donations that the flushers report are as many as there are entries. -/
  donated : (c.workers.map (·.donated)).sum = c.shared.size

/-- A flusher that is done has one block for every group, and no two at one slot. -/
theorem Own.blocks_of_isDone (hks : ∀ i, ∀ k ∈ ks i, spec.IsHashed k)
    (hdistinct : ∀ i, (ks i).Pairwise fun a b => a.values ≠ b.values) {g : SharedGroups}
    (hg : g.dictionary.IsIndex spec) {i : Nat} {ds : List Deed} {w : Flusher σ}
    (hw : Own spec ks τ workers i ds w g) (hdone : w.IsDone) :
    ∃ blocks : List Block, blocks.map (·.key) = ks i ∧
      ds = blocks.flatMap (Block.deeds spec.aggregates.length) ∧
      (∀ b ∈ blocks, g.find b.key = some b.slot) ∧
      blocks.Pairwise fun b b' => b.slot ≠ b'.slot := by
  obtain ⟨blocks, hkeys, hdeeds, hfound⟩ := hw.blocks
  rw [hdone.1, List.map_nil, List.append_nil] at hdeeds
  rw [hdone.2, List.map_nil, List.append_nil] at hkeys
  refine ⟨blocks, hkeys, hdeeds, hfound, ?_⟩
  have hpair := hdistinct i
  rw [← hkeys, List.pairwise_map] at hpair
  refine hpair.imp_of_mem fun {b b'} hb hb' hne hslot => hne ?_
  have hhash : ∀ b ∈ blocks, spec.IsHashed b.key := fun b hb =>
    hks i b.key (hkeys ▸ List.mem_map_of_mem hb)
  obtain ⟨k, hk, hv⟩ := (hg.find_eq_some_iff (hhash b hb)).mp (hfound b hb)
  obtain ⟨k', hk', hv'⟩ := (hg.find_eq_some_iff (hhash b' hb')).mp (hfound b' hb')
  rw [hslot, hk'] at hk
  cases hk
  exact hv.symm.trans hv'

/-- **The deeds of a flusher that is done**, at the slot of a key: one block if it had a group of
    the key, none otherwise. -/
theorem Own.deedsAt_eq (hks : ∀ i, ∀ k ∈ ks i, spec.IsHashed k)
    (hdistinct : ∀ i, (ks i).Pairwise fun a b => a.values ≠ b.values) {g : SharedGroups}
    (hg : g.dictionary.IsIndex spec) {i : Nat} {w : Flusher σ}
    (hw : Own spec ks τ workers i (Crew.ofWorker i h) w g) (hdone : w.IsDone) {s : Nat} {k : Key}
    (hs : g.dictionary.keys.toList[s]? = some k) :
    ((∃ k' ∈ ks i, k'.values = k.values) →
      deedsAt h i s = [.donate s] ∨
        deedsAt h i s = .meet s :: (List.range spec.aggregates.length).map (.fold s)) ∧
    (¬ (∃ k' ∈ ks i, k'.values = k.values) → deedsAt h i s = []) := by
  obtain ⟨blocks, hkeys, hdeeds, hfound, hslots⟩ := hw.blocks_of_isDone hks hdistinct hg hdone
  rw [deedsAt, hdeeds]
  constructor
  · rintro ⟨k', hk', hv⟩
    rw [← hkeys] at hk'
    obtain ⟨b, hb, rfl⟩ := List.mem_map.mp hk'
    -- the block of its group is at the slot of the key, as keys with these values have one slot
    have hslot : b.slot = s := by
      have hhash := hks i b.key (hkeys ▸ List.mem_map_of_mem hb)
      have hfind := (hg.find_eq_some_iff hhash).mpr ⟨k, hs, hv.symm⟩
      exact Option.some.inj ((hfound b hb).symm.trans hfind)
    subst hslot
    rw [filter_deeds_eq hslots hb, Block.deeds]
    cases b.donated with
    | true => exact Or.inl rfl
    | false => exact Or.inr rfl
  · intro hnone
    refine filter_deeds_eq_nil fun b hb hslot => hnone ⟨b.key, ?_, ?_⟩
    · exact hkeys ▸ List.mem_map_of_mem hb
    · have hhash := hks i b.key (hkeys ▸ List.mem_map_of_mem hb)
      obtain ⟨k', hk', hv⟩ := (hg.find_eq_some_iff hhash).mp (hfound b hb)
      rw [hslot, hs] at hk'
      cases hk'
      exact hv.symm

/-- What all flushers keep, and that they are done. -/
structure AllDone (spec : GroupingSpec) (ks : Nat → List Key) (τ : Nat → Ledger) (workers : Nat)
    (h : History) (c : Crew (Flusher σ) SharedGroups) : Prop where
  holds : Crew.Holds (Common spec ks τ workers) (Own spec ks τ workers) h c
  length : c.workers.length = workers
  done : ∀ w ∈ c.workers, w.IsDone
  hashed : ∀ i, ∀ k ∈ ks i, spec.IsHashed k
  distinct : ∀ i, (ks i).Pairwise fun a b => a.values ≠ b.values

namespace AllDone

theorem worker (hall : AllDone spec ks τ workers h c) {i : Nat} (hi : i < workers) :
    ∃ w, c.workers[i]? = some w ∧ w.IsDone ∧
      Own spec ks τ workers i (Crew.ofWorker i h) w c.shared := by
  have hlt : i < c.workers.length := hall.length ▸ hi
  have hw : c.workers[i]? = some c.workers[i] := List.getElem?_eq_getElem hlt
  exact ⟨c.workers[i], hw, hall.done _ (List.getElem_mem hlt), hall.holds.own i _ hw⟩

theorem deedsAt_eq (hall : AllDone spec ks τ workers h c) {i : Nat} (hi : i < workers) {s : Nat}
    {k : Key} (hs : c.shared.dictionary.keys.toList[s]? = some k) :
    ((∃ k' ∈ ks i, k'.values = k.values) →
      deedsAt h i s = [.donate s] ∨
        deedsAt h i s = .meet s :: (List.range spec.aggregates.length).map (.fold s)) ∧
    (¬ (∃ k' ∈ ks i, k'.values = k.values) → deedsAt h i s = []) := by
  obtain ⟨w, -, hdone, hw⟩ := hall.worker hi
  exact hw.deedsAt_eq hall.hashed hall.distinct hall.holds.common.index hdone hs

/-- Every group has found the slot of its key. -/
theorem exists_slot (hall : AllDone spec ks τ workers h c) {i : Nat} (hi : i < workers) {k : Key}
    (hk : k ∈ ks i) : ∃ s k', c.shared.find k = some s ∧
      c.shared.dictionary.keys.toList[s]? = some k' ∧ k'.values = k.values := by
  have hindex := hall.holds.common.index
  obtain ⟨w, -, hdone, hw⟩ := hall.worker hi
  obtain ⟨blocks, hkeys, -, hfound, -⟩ :=
    hw.blocks_of_isDone hall.hashed hall.distinct hindex hdone
  have hk' := hk
  rw [← hkeys] at hk'
  obtain ⟨b, hb, rfl⟩ := List.mem_map.mp hk'
  obtain ⟨k', hs, hv⟩ := (hindex.find_eq_some_iff (hall.hashed i b.key hk)).mp (hfound b hb)
  exact ⟨b.slot, k', hfound b hb, hs, hv⟩

/-- A worker has donated at a slot exactly if it is the donor. -/
theorem donate_mem_iff (hall : AllDone spec ks τ workers h c) {donor s : Nat}
    (hdonor : (donor, Deed.donate s) ∈ h) (i : Nat) :
    Deed.donate s ∈ deedsAt h i s ↔ i = donor := by
  rw [deedsAt, List.mem_filter, Crew.mem_ofWorker, decide_eq_true_eq]
  constructor
  · intro hmem
    exact donor_unique (hall.holds.common.donations ▸ List.nodup_range) hmem.1 hdonor
  · rintro rfl
    exact ⟨hdonor, rfl⟩

/-- How often a flusher has folded at a slot: once if it had a group of the key and is not the
    donor, and otherwise never. -/
theorem count_folders (hall : AllDone spec ks τ workers h c) {s : Nat} {k : Key}
    (hs : c.shared.dictionary.keys.toList[s]? = some k) {donor : Nat}
    (hdonor : (donor, Deed.donate s) ∈ h) {j : Nat} (hj : j < spec.aggregates.length) {i : Nat}
    (hi : i < workers) :
    (folders h s j).count i =
      if i ≠ donor ∧ ∃ k' ∈ ks i, k'.values = k.values then 1 else 0 := by
  obtain ⟨hhas, hnot⟩ := hall.deedsAt_eq hi hs
  have hdonates := hall.donate_mem_iff hdonor i
  rw [count_folders_eq]
  by_cases hk : ∃ k' ∈ ks i, k'.values = k.values
  · rcases hhas hk with heq | heq
    · -- it donated, so it is the donor, and has not folded
      rw [heq] at hdonates ⊢
      rw [if_neg fun hne => hne.1 (hdonates.mp List.mem_cons_self)]
      rfl
    · -- it folded each aggregate once, so it is not the donor
      have hne : i ≠ donor := by
        intro hd
        have hmem := hdonates.mpr hd
        rw [heq] at hmem
        simp at hmem
      rw [heq, List.count_cons_of_ne (by simp), count_folds hj, if_pos ⟨hne, hk⟩]
  · rw [hnot hk, if_neg fun hne => hk hne.2, List.count_nil]

/-- **Who has contributed to a tally**: each flusher that had a group of the key, once. -/
theorem contributors (hall : AllDone spec ks τ workers h c) {s : Nat} {k : Key}
    (hs : c.shared.dictionary.keys.toList[s]? = some k) {donor : Nat}
    (hdonor : (donor, Deed.donate s) ∈ h) {j : Nat} (hj : j < spec.aggregates.length) :
    (donor :: folders h s j).Nodup ∧
      ∀ i, i ∈ donor :: folders h s j ↔ i < workers ∧ ∃ k' ∈ ks i, k'.values = k.values := by
  have hknown := hall.holds.common.known
  -- who has no group of the key has done nothing at the slot, let alone donated
  have hdonorHas : ∃ k' ∈ ks donor, k'.values = k.values := by
    by_contra hnone
    have hmem := (hall.donate_mem_iff hdonor donor).mpr rfl
    rw [(hall.deedsAt_eq (hknown _ hdonor) hs).2 hnone] at hmem
    cases hmem
  have hmem : ∀ i, i ∈ folders h s j ↔
      i < workers ∧ i ≠ donor ∧ ∃ k' ∈ ks i, k'.values = k.values := by
    intro i
    constructor
    · intro hi
      have hlt : i < workers := hknown _ (mem_folders.mp hi)
      have hpos := List.count_pos_iff.mpr hi
      rw [hall.count_folders hs hdonor hj hlt] at hpos
      by_cases hcond : i ≠ donor ∧ ∃ k' ∈ ks i, k'.values = k.values
      · exact ⟨hlt, hcond⟩
      · rw [if_neg hcond] at hpos
        exact absurd hpos (Nat.lt_irrefl 0)
    · rintro ⟨hlt, hcond⟩
      refine List.count_pos_iff.mp ?_
      rw [hall.count_folders hs hdonor hj hlt, if_pos hcond]
      exact Nat.zero_lt_one
  constructor
  · refine List.nodup_cons.mpr ⟨fun hd => ((hmem donor).mp hd).2.1 rfl, ?_⟩
    refine List.nodup_iff_count_le_one.mpr fun i => ?_
    by_cases hi : i ∈ folders h s j
    · obtain ⟨hlt, hcond⟩ := (hmem i).mp hi
      have hone := hall.count_folders hs hdonor hj hlt
      rw [if_pos hcond] at hone
      omega
    · have hzero := List.count_eq_zero_of_not_mem hi
      omega
  · intro i
    rw [List.mem_cons, hmem]
    constructor
    · rintro (rfl | ⟨hlt, -, hk⟩)
      · exact ⟨hknown _ hdonor, hdonorHas⟩
      · exact ⟨hlt, hk⟩
    · rintro ⟨hlt, hk⟩
      by_cases hd : i = donor
      · exact Or.inl hd
      · exact Or.inr ⟨hlt, hd, hk⟩

/-- Donations as reported by the flushers, and as they happened. -/
theorem sum_donated (hall : AllDone spec ks τ workers h c) :
    (c.workers.map (·.donated)).sum = c.shared.size := by
  -- each flusher reports its own donations, and slots are donated each once
  have hreported : c.workers.map (·.donated) = (List.range workers).map fun i =>
      ((Crew.ofWorker i h).filterMap Deed.donated?).length := by
    have hlength := hall.length
    refine List.ext_getElem? fun i => ?_
    rw [List.getElem?_map, List.getElem?_map]
    by_cases hi : i < workers
    · obtain ⟨w, hwi, -, hw⟩ := hall.worker hi
      rw [hwi, List.getElem?_range hi, Option.map_some, Option.map_some, hw.donated]
    · rw [List.getElem?_eq_none (by omega),
        List.getElem?_eq_none (by rw [List.length_range]; omega)]
      rfl
  have hslots : (h.filterMap fun e => e.2.donated?) = List.range c.shared.size :=
    hall.holds.common.donations
  have hperm := Crew.perm_ofWorker Deed.donated? hall.holds.common.known
  have hlength := hperm.length_eq
  rw [hslots, List.length_range, List.length_flatMap] at hlength
  rw [hreported, hlength]

/-- **Flushers that are done have poured everything**, once. -/
theorem poured (hall : AllDone spec ks τ workers h c) : Poured spec ks τ workers h c := by
  have hg := hall.holds.common
  refine ⟨hg.index.distinct, fun values => ⟨?_, ?_⟩, hg.source, ?_, ?_, hall.sum_donated⟩
  · rintro ⟨k, hk, hv⟩
    obtain ⟨i, hi, hki⟩ := hg.source k hk
    exact ⟨i, hi, k, hki, hv⟩
  · rintro ⟨i, hi, k, hk, hv⟩
    obtain ⟨s, k', -, hs, hv'⟩ := hall.exists_slot hi hk
    exact ⟨k', List.mem_of_getElem? hs, hv'.trans hv⟩
  · intro i hi k hk
    obtain ⟨s, k', hfind, hs, hv⟩ := hall.exists_slot hi hk
    exact ⟨s, hfind, (hall.deedsAt_eq hi hs).1 ⟨k, hk, hv.symm⟩⟩
  · intro s k hs
    obtain ⟨buckets, hget, donor, hdonor, htallies⟩ := hg.entries s k hs
    refine ⟨donor, hdonor, fun j a ha => ⟨?_, ?_⟩⟩
    · exact htallies.load hget ha
    · exact hall.contributors hs hdonor (List.getElem?_eq_some_iff.mp ha).1

end AllDone

/-! ## Scanned jobs -/

omit [LocalStates σ] [LawfulStates σ] in
/-- **What was poured gathers the rows of all jobs.** -/
theorem Poured.gathers {rows : Nat → List Nat}
    (hp : Poured spec (fun i => spec.discovered t (rows i)) (fun i => spec.ledger t (rows i))
      workers h c) {s j : Nat} {k : Key} {a : Aggregate}
    (hs : c.shared.dictionary.keys.toList[s]? = some k) (ha : spec.aggregates[j]? = some a) :
    ∃ xs tally, SharedGroups.load c.shared j s = .ok tally ∧ a.function.Gathers xs tally ∧
      xs.Perm (a.inputs t (spec.members t ((List.range workers).flatMap rows) k.values)) := by
  obtain ⟨donor, -, htallies⟩ := hp.tallies s k hs
  obtain ⟨hload, hnodup, hmem⟩ := htallies j a ha
  refine ⟨_, _, hload, .foldl_merge (folders h s j) (fun i _ => .fold _) (.fold _), ?_⟩
  rw [spec.members_flatMap, a.inputs_flatMap]
  show ((donor :: folders h s j).flatMap fun i =>
    a.inputs t (spec.members t (rows i) k.values)).Perm _
  refine flatMap_perm_range hnodup hmem fun i hnone => ?_
  rw [spec.members_eq_nil t fun hrow => hnone ((spec.exists_mem_discovered_iff t).mpr hrow)]
  rfl

/-- The keys of a job, by its number. -/
def keysOf (jobs : List (Job σ)) (i : Nat) : List Key :=
  ((jobs[i]?).map (·.dictionary.keys.toList)).getD []

/-- The tallies that a job has after its scan, by its number. -/
def ledgerOf (spec : GroupingSpec) (t : Table) (jobs : List (Job σ)) (i : Nat) : Ledger :=
  spec.ledger t (Span.rowsAt (jobs.map (·.rows)) i)

variable {fresh jobs : List (Job σ)}

/-- What scanning has made of fresh jobs. -/
theorem shows_of_mapM_scan (hfresh : ∀ job ∈ fresh, job.IsFresh spec t)
    (hscan : fresh.mapM (Job.scan spec.aggregates t) = .ok jobs) :
    jobs.length = fresh.length ∧
      (∀ i, keysOf jobs i = spec.discovered t (Span.rowsAt (fresh.map (·.rows)) i)) ∧
      ∀ i (job : Job σ), jobs[i]? = some job →
        job.Shows spec t (keysOf jobs i) (ledgerOf spec t fresh i) := by
  obtain ⟨scanned, hmap, hall⟩ := Job.mapM_scan fresh hfresh
  rw [hscan] at hmap
  cases hmap
  have hshows : ∀ i (job : Job σ), jobs[i]? = some job →
      job.Shows spec t (spec.discovered t (Span.rowsAt (fresh.map (·.rows)) i))
        (ledgerOf spec t fresh i) := by
    intro i job hi
    obtain ⟨job₀, hi₀, hjob, -⟩ := getElem?_of_forall₂ hall hi
    have hspan : (fresh.map (·.rows))[i]? = some job₀.rows := by
      rw [List.getElem?_map, hi₀]
      rfl
    rw [ledgerOf, Span.rowsAt_of_getElem? hspan]
    exact hjob
  have hkeys : ∀ i, keysOf jobs i = spec.discovered t (Span.rowsAt (fresh.map (·.rows)) i) := by
    intro i
    cases hi : jobs[i]? with
    | some job =>
      rw [keysOf, hi]
      exact (hshows i job hi).keys
    | none =>
      have hlt := List.getElem?_eq_none_iff.mp hi
      rw [keysOf, hi, Span.rowsAt, List.getElem?_map, List.getElem?_eq_none (hall.length_eq ▸ hlt)]
      rfl
  refine ⟨hall.length_eq.symm, hkeys, fun i job hi => ?_⟩
  rw [hkeys]
  exact hshows i job hi

/-- **Every run of the flushers of scanned jobs** succeeds, and when all are done, all is poured. -/
theorem run_crew (hfresh : ∀ job ∈ fresh, job.IsFresh spec t)
    (hscan : fresh.mapM (Job.scan spec.aggregates t) = .ok jobs) (schedule : List Nat) :
    ∃ c, (crew jobs).run (step spec.aggregates) schedule = .ok c ∧
      ((∀ w ∈ c.workers, w.IsDone) →
        Poured spec (keysOf jobs) (ledgerOf spec t fresh) jobs.length
          ((crew jobs).history (step spec.aggregates) deeds schedule) c) := by
  obtain ⟨-, hkeys, hshows⟩ := shows_of_mapM_scan hfresh hscan
  have hhashed : ∀ i, ∀ k ∈ keysOf jobs i, spec.IsHashed k := by
    intro i k hk
    rw [hkeys] at hk
    exact spec.isHashed_of_mem_discovered t hk
  have hdistinct : ∀ i, (keysOf jobs i).Pairwise fun a b => a.values ≠ b.values := by
    intro i
    rw [hkeys]
    exact spec.pairwise_discovered t _
  obtain ⟨c, hrun, hholds, hlength⟩ := (discipline hhashed).run schedule (holds_crew hshows)
  rw [crew, List.length_map] at hlength
  exact ⟨c, hrun, fun hdone => AllDone.poured ⟨hholds, hlength, hdone, hhashed, hdistinct⟩⟩

/-- **Pouring ends**, whatever the schedule. -/
theorem exists_flushAll (hfresh : ∀ job ∈ fresh, job.IsFresh spec t)
    (hscan : fresh.mapM (Job.scan spec.aggregates t) = .ok jobs) (schedule : List Nat) :
    ∃ c rest, flushAll spec.aggregates schedule jobs .empty = .ok c ∧
      (crew jobs).run (step spec.aggregates) (schedule ++ rest) = .ok c ∧
      ∀ w ∈ c.workers, w.IsDone := by
  have hsucceeds : ∀ s, ∃ c, (crew jobs).run (step spec.aggregates) s = .ok c := by
    intro s
    obtain ⟨c, hrun, -⟩ := run_crew hfresh hscan s
    exact ⟨c, hrun⟩
  have hcost : ∀ {w : Flusher σ} {g : SharedGroups} {w' : Flusher σ} {g' : SharedGroups},
      step spec.aggregates w g = .ok (w', g') →
        cost spec.aggregates w' ≤ cost spec.aggregates w - 1 := cost_of_step
  obtain ⟨rest, c, hall, hrun, hzero⟩ := Crew.exists_interleave hcost hsucceeds schedule
  exact ⟨c, rest, hall, hrun, fun w hw => isDone_of_cost (hzero w hw)⟩

end End
end Flusher

section

variable [FloatAddition]

/-- **Pouring loses nothing and duplicates nothing**, whatever the interleaving.

    Of every list of fresh jobs that have been scanned, the flushers end with every schedule, and
    whenever all of them are done: there is one entry per distinct key of the jobs; every group of
    every job was donated or folded in, once and never both; a tally is the local one of the donor,
    merged with the local ones of all other jobs with the key, each once, in the order of the steps,
    hence that of all rows of the group wherever the order of inputs does not matter; and the
    reported donations are as many as there are groups. -/
theorem flush_exactly_once {m : StorageMode} {spec : GroupingSpec} {t : Table}
    {fresh jobs : List (Job m.Layout)} (hfresh : ∀ job ∈ fresh, job.IsFresh spec t)
    (hscan : fresh.mapM (Job.scan spec.aggregates t) = .ok jobs) :
    (∀ i job, jobs[i]? = some job → ∀ o k, job.dictionary.keys.toList[o]? = some k →
      ∀ j a, spec.aggregates[j]? = some a →
        LocalStates.load job.states j o = .ok (Flusher.ledgerOf spec t fresh i k.values a)) ∧
    ∀ schedule,
      (∃ c rest, Flusher.flushAll spec.aggregates schedule jobs .empty = .ok c ∧
        (Flusher.crew jobs).run (Flusher.step spec.aggregates) (schedule ++ rest) = .ok c ∧
        ∀ w ∈ c.workers, w.IsDone) ∧
      ∃ c, (Flusher.crew jobs).run (Flusher.step spec.aggregates) schedule = .ok c ∧
        ((∀ w ∈ c.workers, w.IsDone) →
          Flusher.Poured spec (Flusher.keysOf jobs) (Flusher.ledgerOf spec t fresh) jobs.length
            ((Flusher.crew jobs).history (Flusher.step spec.aggregates) Flusher.deeds schedule) c ∧
          ∀ s k, c.shared.dictionary.keys.toList[s]? = some k →
            ∀ j a, spec.aggregates[j]? = some a → a.function.IsOrderFree →
              (a.function.IsSum → (fresh.flatMap (·.rows.rows)).length < UInt64.size) →
              SharedGroups.load c.shared j s = .ok (a.tallyOf t
                (spec.members t (fresh.flatMap (·.rows.rows)) k.values))) := by
  obtain ⟨hlength, hkeys, hshows⟩ := Flusher.shows_of_mapM_scan hfresh hscan
  refine ⟨fun i job hi o k ho j a ha => ?_, fun schedule =>
    ⟨Flusher.exists_flushAll hfresh hscan schedule, ?_⟩⟩
  · have hjob := hshows i job hi
    rw [hjob.keys] at ho
    exact hjob.load_eq ho ha
  obtain ⟨c, hrun, hpoured⟩ := Flusher.run_crew hfresh hscan schedule
  refine ⟨c, hrun, fun hdone => ⟨hpoured hdone, fun s k hs j a ha hfree hrows => ?_⟩⟩
  have hp := hpoured hdone
  rw [funext hkeys] at hp
  obtain ⟨xs, tally, hload, hgathers, hperm⟩ := Flusher.Poured.gathers hp hs ha
  have hspans : (fresh.map (·.rows)).length = jobs.length := by
    rw [List.length_map, hlength]
  rw [← hspans, Span.flatMap_rowsAt, List.flatMap_map] at hperm
  have hlen : a.function.IsSum → xs.length < UInt64.size := by
    intro hk
    rw [hperm.length_eq]
    exact Nat.lt_of_le_of_lt (spec.length_inputs_members_le t _ _ a) (hrows hk)
  rw [hload, hgathers.eq_foldInputs hfree hlen, AggregateFunction.foldInputs_perm hfree hperm]
  rfl

end

/-- Two jobs that share a key, poured by every schedule. -/
theorem flush_exactly_once_sample :
    let fresh : List (Job StorageMode.array.Layout) := [⟨0, 2⟩, ⟨2, 3⟩].map fun s =>
      .create 0 s (.create GroupingSpec.sample.keys GroupingSpec.sample.hashValue) 2
    ∃ jobs, fresh.mapM (Job.scan GroupingSpec.sample.aggregates .sample) = .ok jobs ∧
      ∀ schedule, ∃ c h,
        Flusher.flushAll GroupingSpec.sample.aggregates schedule jobs .empty = .ok c ∧
        Flusher.Poured .sample (Flusher.keysOf jobs) (Flusher.ledgerOf .sample .sample fresh) 2
          h c := by
  intro fresh
  have hfresh : ∀ job ∈ fresh, job.IsFresh .sample .sample := by
    intro job hjob
    obtain ⟨s, -, rfl⟩ := List.mem_map.mp hjob
    exact Job.isFresh_create _ _ 0 s
  obtain ⟨jobs, hscan, hall⟩ := Job.mapM_scan fresh hfresh
  refine ⟨jobs, hscan, fun schedule => ?_⟩
  obtain ⟨-, hruns⟩ := flush_exactly_once hfresh hscan
  obtain ⟨c, rest, hflush, hrun, hdone⟩ := (hruns schedule).1
  obtain ⟨c', hrun', hpoured⟩ := (hruns (schedule ++ rest)).2
  rw [hrun] at hrun'
  cases hrun'
  have hlength : jobs.length = 2 := hall.length_eq.symm
  have hall := (hpoured hdone).1
  rw [hlength] at hall
  exact ⟨c, _, hflush, hall⟩

end Cohort
