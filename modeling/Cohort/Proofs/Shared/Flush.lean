import Cohort.Proofs.Job.Scan
import Cohort.Proofs.Shared.History
import Cohort.Proofs.Shared.Slots
import Cohort.Shared.Flusher
/-
  FLUSHING under every interleaving: what the flushers have done, and what the shared groups hold.

  1. **Deeds.**  A flusher donates a group, or meets the group of its key at a slot and then folds
     its aggregates there, one by one.  What it does for one group is a `Block`, and its deeds so
     far, together with the visits in hand, are whole blocks, one per group begun (`Own.blocks`).

  2. **Shared groups.**  Slots are donated in their order, each once (`Common.donations`), and the
     tally of a bucket is what its donor had, merged with what the others folded in, in the order in
     which they did (`Common.entries`).

  3. **Step.**  Both are kept by every step, `discipline`.  The only thing the others notice of a
     step is that more keys have slots.

  Which groups and tallies the flushers started from is given by two functions of their number.
-/

namespace Cohort

namespace Flusher

/-! ## Deeds -/

/-- What a flusher does by one step. -/
inductive Deed
  /-- The next group becomes the group of a new slot. -/
  | donate (slot : Nat)
  /-- The key of the next group is found at a slot. -/
  | meet (slot : Nat)
  /-- One aggregate of the group in hand is folded into the group of a slot. -/
  | fold (slot aggregate : Nat)
deriving DecidableEq

namespace Deed

/-- The slot that a deed is about. -/
def slot : Deed → Nat
  | donate s => s
  | meet s => s
  | fold s _ => s

/-- The slot that a deed makes. -/
def donated? : Deed → Option Nat
  | donate s => some s
  | _ => none

end Deed

/-- Who did what, in the order of the steps. -/
abbrev History := List (Nat × Deed)

section Deeds

variable {σ : Type}

/-- What the next step of a flusher does. -/
def deeds (w : Flusher σ) (g : SharedGroups) : List Deed :=
  match w.visits, w.pending with
  | v :: _, _ => [.fold v.slot v.aggregate]
  | [], [] => []
  | [], (key, _) :: _ =>
    match g.find key with
    | none => [.donate g.size]
    | some slot => [.meet slot]

/-- Who folded an aggregate into the group of a slot, in the order of the steps. -/
def folders (h : History) (slot aggregate : Nat) : List Nat :=
  h.filterMap fun e => if e.2 = .fold slot aggregate then some e.1 else none

/-- The slots that were donated, in the order of the steps. -/
def donations (h : History) : List Nat := h.filterMap fun e => e.2.donated?

/-- All that is done for one group. -/
structure Block where
  key : Key
  slot : Nat
  donated : Bool

/-- The deeds of a block, for a number of aggregates. -/
def Block.deeds (n : Nat) (b : Block) : List Deed :=
  if b.donated then [.donate b.slot]
  else .meet b.slot :: (List.range n).map (.fold b.slot)

/-- Folders come in the order of the steps. -/
theorem folders_append (h h' : History) (s j : Nat) :
    folders (h ++ h') s j = folders h s j ++ folders h' s j := List.filterMap_append

theorem donations_append (h h' : History) :
    donations (h ++ h') = donations h ++ donations h' := List.filterMap_append

theorem folders_cons (e : Nat × Deed) (h : History) (s j : Nat) :
    folders (e :: h) s j = if e.2 = .fold s j then e.1 :: folders h s j else folders h s j := by
  rw [folders, List.filterMap_cons]
  by_cases hd : e.2 = .fold s j
  · rw [if_pos hd, if_pos hd]
    rfl
  · rw [if_neg hd, if_neg hd]
    rfl

/-- A fold makes its worker the last folder ... -/
theorem folders_concat_self (h : History) (i s j : Nat) :
    folders (h ++ [(i, .fold s j)]) s j = folders h s j ++ [i] := by
  rw [folders_append, folders_cons, if_pos rfl]
  rfl

/-- ... and no other deed makes one. -/
theorem folders_concat_of_ne (h : History) (i : Nat) {s j : Nat} {d : Deed} (hd : d ≠ .fold s j) :
    folders (h ++ [(i, d)]) s j = folders h s j := by
  rw [folders_append, folders_cons, if_neg hd]
  exact List.append_nil _

/-- Who folded is who has done that deed. -/
theorem mem_folders {h : History} {i s j : Nat} : i ∈ folders h s j ↔ (i, Deed.fold s j) ∈ h := by
  rw [folders, List.mem_filterMap]
  constructor
  · rintro ⟨⟨i', d⟩, hmem, heq⟩
    by_cases hd : d = .fold s j
    · rw [if_pos hd] at heq
      cases heq
      exact hd ▸ hmem
    · rw [if_neg hd] at heq
      cases heq
  · exact fun hmem => ⟨(i, .fold s j), hmem, if_pos rfl⟩

/-- How often a worker folded is read off its own deeds. -/
theorem count_folders (h : History) (i s j : Nat) :
    (folders h s j).count i = (Crew.ofWorker i h).count (.fold s j) := by
  induction h with
  | nil => rfl
  | cons e h ih =>
    rw [folders_cons, Crew.ofWorker_cons]
    by_cases hd : e.2 = .fold s j <;> by_cases hi : e.1 = i
    · rw [if_pos hd, if_pos hi, hd, hi, List.count_cons_self, List.count_cons_self, ih]
    · rw [if_pos hd, if_neg hi, List.count_cons_of_ne hi, ih]
    · rw [if_neg hd, if_pos hi, List.count_cons_of_ne hd, ih]
    · rw [if_neg hd, if_neg hi, ih]

end Deeds

/-! ## Invariants -/

section Invariants

variable {σ : Type} [FloatAddition] [LocalStates σ] [LawfulStates σ]

/-- What a donor had for a key, merged with what the folders at its slot had. -/
def collected (h : History) (τ : Nat → Ledger) (donor s : Nat) (k : Key) (j : Nat) (a : Aggregate) :
    Tally :=
  (folders h s j).foldl (fun t i => a.function.merge t (τ i k.values a)) (τ donor k.values a)

/-- A fold merges what the folder has for the key ... -/
theorem collected_concat_self (h : History) (τ : Nat → Ledger) (donor i s j : Nat) (k : Key)
    (a : Aggregate) :
    collected (h ++ [(i, .fold s j)]) τ donor s k j a =
      a.function.merge (collected h τ donor s k j a) (τ i k.values a) := by
  rw [collected, folders_concat_self, List.foldl_append]
  rfl

/-- ... and no other deed changes what was collected. -/
theorem collected_concat_of_ne (h : History) (τ : Nat → Ledger) (donor i : Nat) {s j : Nat}
    {d : Deed} (hd : d ≠ .fold s j) (k : Key) (a : Aggregate) :
    collected (h ++ [(i, d)]) τ donor s k j a = collected h τ donor s k j a := by
  rw [collected, folders_concat_of_ne h i hd]
  rfl

/-- What the shared groups hold after some steps of `workers` flushers, of which number `i` started
    from the groups `ks i` with the tallies `τ i`. -/
structure Common (spec : GroupingSpec) (ks : Nat → List Key) (τ : Nat → Ledger) (workers : Nat)
    (h : History) (g : SharedGroups) : Prop where
  index : g.dictionary.IsIndex spec
  known : ∀ e ∈ h, e.1 < workers
  /-- Slots are donated in their order, each once. -/
  donations : donations h = List.range g.size
  folded : ∀ i s j, (i, Deed.fold s j) ∈ h → s < g.size
  source : ∀ k ∈ g.dictionary.keys.toList, ∃ i < workers, k ∈ ks i
  /-- What the donor had, merged with what others folded in. -/
  entries : SharedDictionary.Entries (fun s k buckets => ∃ donor, (donor, Deed.donate s) ∈ h ∧
    Bucket.Hold spec.aggregates (collected h τ donor s k) buckets) g

/-- What holds of one flusher that has done some deeds. -/
structure Own (spec : GroupingSpec) (ks : Nat → List Key) (τ : Nat → Ledger) (workers i : Nat)
    (ds : List Deed) (w : Flusher σ) (g : SharedGroups) : Prop where
  known : i < workers
  /-- The groups not begun are still there. -/
  states : ∃ gs, LawfulStates.Holds spec.aggregates.length w.states gs ∧
    ∀ e ∈ w.pending, gs[e.2]? = some (some (spec.aggregates.map (τ i e.1.values)))
  places : w.pending.Pairwise fun e e' => e.2 ≠ e'.2
  /-- For every group begun there is a block at the slot of its key. -/
  blocks : ∃ blocks : List Block, blocks.map (·.key) ++ w.pending.map Prod.fst = ks i ∧
    ds ++ (w.visits.map fun v => .fold v.slot v.aggregate) =
      blocks.flatMap (Block.deeds spec.aggregates.length) ∧
    ∀ b ∈ blocks, g.find b.key = some b.slot
  /-- Visits bring what the flusher has for the key of the slot. -/
  visits : ∀ v ∈ w.visits, ∃ k ∈ ks i, ∃ a, g.find k = some v.slot ∧
    spec.aggregates[v.aggregate]? = some a ∧ v.function = a.function ∧
    v.call = .merge (τ i k.values a)
  donated : w.donated = (ds.filterMap Deed.donated?).length

variable {spec : GroupingSpec} {ks : Nat → List Key} {τ : Nat → Ledger} {workers i : Nat}
variable {h : History} {ds : List Deed} {w : Flusher σ} {g g' : SharedGroups}

/-- What is still to be poured is of the flusher's own groups. -/
theorem Own.mem_of_pending (hw : Own spec ks τ workers i ds w g) {e : Key × Nat}
    (he : e ∈ w.pending) : e.1 ∈ ks i := by
  obtain ⟨blocks, hkeys, -⟩ := hw.blocks
  exact hkeys ▸ List.mem_append_right _ (List.mem_map_of_mem he)

/-- **What is a flusher's own stays so**, as others add slots and move none. -/
theorem Own.stable (hks : ∀ i, ∀ k ∈ ks i, spec.IsHashed k) (hw : Own spec ks τ workers i ds w g)
    (hgrows : g.Grows spec g') : Own spec ks τ workers i ds w g' := by
  obtain ⟨blocks, hkeys, hdeeds, hfound⟩ := hw.blocks
  refine ⟨hw.known, hw.states, hw.places, ⟨blocks, hkeys, hdeeds, fun b hb => ?_⟩, fun v hv => ?_,
    hw.donated⟩
  · have hkey : b.key ∈ ks i := hkeys ▸ List.mem_append_left _ (List.mem_map_of_mem hb)
    exact hgrows b.key b.slot (hks i b.key hkey) (hfound b hb)
  · obtain ⟨k, hk, a, hfind, hrest⟩ := hw.visits v hv
    exact ⟨k, hk, a, hgrows k v.slot (hks i k hk) hfind, hrest⟩

/-! ## Steps -/

/-- **A fold** brings the flusher's tally into one bucket. -/
theorem Common.fold (hg : Common spec ks τ workers h g) (hi : i < workers) {k : Key}
    {a : Aggregate} {v : Visit} (hhash : spec.IsHashed k) (hfind : g.find k = some v.slot)
    (ha : spec.aggregates[v.aggregate]? = some a) (hfunction : v.function = a.function)
    (hcall : v.call = .merge (τ i k.values a)) :
    Common spec ks τ workers (h ++ [(i, .fold v.slot v.aggregate)]) (v.perform g) := by
  have hsize : (v.perform g).size = g.size := SharedDictionary.size_modify _ _ _
  refine ⟨hg.index, List.forall_mem_append.mpr ⟨hg.known, List.forall_mem_singleton.mpr hi⟩, ?_,
    fun i' s j hmem => ?_, hg.source, ?_⟩
  · rw [donations_append, hg.donations, hsize]
    exact List.append_nil _
  · rw [hsize]
    rcases List.mem_append.mp hmem with hmem | hmem
    · exact hg.folded i' s j hmem
    · cases List.mem_singleton.mp hmem
      exact SharedDictionary.lt_size_of_find hg.index hhash hfind
  · obtain ⟨k₀, hk₀, hv⟩ := (hg.index.find_eq_some_iff hhash).mp hfind
    refine SharedDictionary.entries_modify hg.entries (fun k' buckets hk' hholds => ?_)
      (fun s k' buckets hslot hholds => ?_)
    · obtain ⟨donor, hdonor, htallies⟩ := hholds
      -- the slot has one key, so the tally that comes is one of the tuple that is there
      have hkey : k' = k₀ := Option.some.inj (hk'.symm.trans hk₀)
      subst hkey
      refine ⟨donor, List.mem_append_left _ hdonor, htallies.perform ha ?_ fun j a' hj => ?_⟩
      · rw [collected_concat_self, hfunction, hcall, hv]
        exact Bucket.perform_merge _ _ _
      · exact collected_concat_of_ne h τ donor i (by intro heq; cases heq; exact hj rfl) k' a'
    · obtain ⟨donor, hdonor, htallies⟩ := hholds
      exact ⟨donor, List.mem_append_left _ hdonor, htallies.congr fun j a' =>
        collected_concat_of_ne h τ donor i (by intro heq; cases heq; exact hslot rfl) k' a'⟩

/-- **A donation** makes a slot whose buckets are those of the group. -/
theorem Common.donate (hg : Common spec ks τ workers h g) (hi : i < workers) {k : Key}
    (hk : k ∈ ks i) (hhash : spec.IsHashed k) (hnew : g.find k = none) :
    Common spec ks τ workers (h ++ [(i, .donate g.size)])
      (g.insert k ((spec.aggregates.map (τ i k.values)).map .ofTally)) := by
  refine ⟨hg.index.insert hhash hnew,
    List.forall_mem_append.mpr ⟨hg.known, List.forall_mem_singleton.mpr hi⟩, ?_,
    fun i' s j hmem => ?_, fun k' hk' => ?_, ?_⟩
  · rw [donations_append, hg.donations, SharedDictionary.size_insert, List.range_succ]
    rfl
  · rw [SharedDictionary.size_insert]
    rcases List.mem_append.mp hmem with hmem | hmem
    · exact Nat.lt_succ_of_lt (hg.folded i' s j hmem)
    · cases List.mem_singleton.mp hmem
  · have hk'' : k' ∈ g.dictionary.keys.toList ++ [k] :=
      Dictionary.keys_toList_insert g.dictionary k ▸ hk'
    rcases List.mem_append.mp hk'' with hk'' | hk''
    · exact hg.source k' hk''
    · exact ⟨i, hi, List.mem_singleton.mp hk'' ▸ hk⟩
  · refine SharedDictionary.entries_insert hg.entries (fun s k' buckets _ hholds => ?_) ?_
    · obtain ⟨donor, hdonor, htallies⟩ := hholds
      exact ⟨donor, List.mem_append_left _ hdonor, htallies.congr fun j a =>
        collected_concat_of_ne h τ donor i (by simp) k' a⟩
    · refine ⟨i, List.mem_append_right _ (List.mem_singleton.mpr rfl),
        (Bucket.hold_map (τ i k.values)).congr fun j a => ?_⟩
      -- nobody can have folded into a slot that was not there
      have hnobody : folders h g.size j = [] := by
        refine List.eq_nil_iff_forall_not_mem.mpr fun i' hi' => ?_
        exact Nat.lt_irrefl _ (hg.folded i' g.size j (mem_folders.mp hi'))
      rw [collected_concat_of_ne h τ i i (by simp), collected, hnobody]
      rfl

/-- **Meeting** a group changes nothing yet. -/
theorem Common.meet (hg : Common spec ks τ workers h g) (hi : i < workers) (s : Nat) :
    Common spec ks τ workers (h ++ [(i, .meet s)]) g := by
  refine ⟨hg.index, List.forall_mem_append.mpr ⟨hg.known, List.forall_mem_singleton.mpr hi⟩, ?_,
    fun i' s' j hmem => ?_, hg.source, hg.entries.imp fun s' k buckets hholds => ?_⟩
  · rw [donations_append, hg.donations]
    exact List.append_nil _
  · rcases List.mem_append.mp hmem with hmem | hmem
    · exact hg.folded i' s' j hmem
    · cases List.mem_singleton.mp hmem
  · obtain ⟨donor, hdonor, htallies⟩ := hholds
    exact ⟨donor, List.mem_append_left _ hdonor, htallies.congr fun j a =>
      collected_concat_of_ne h τ donor i (by simp) k a⟩

/-! ## The flusher's own side of a step -/

/-- A flusher that folds has one visit less before it. -/
theorem Own.fold {v : Visit} {rest : List Visit} (hw : Own spec ks τ workers i ds w g)
    (hvisits : w.visits = v :: rest) :
    Own spec ks τ workers i (ds ++ [.fold v.slot v.aggregate]) { w with visits := rest } g := by
  obtain ⟨blocks, hkeys, hdeeds, hfound⟩ := hw.blocks
  refine ⟨hw.known, hw.states, hw.places, ⟨blocks, hkeys, ?_, hfound⟩, fun v' hv' => ?_, ?_⟩
  · rw [hvisits] at hdeeds
    rw [List.append_assoc]
    exact hdeeds
  · exact hw.visits v' (hvisits ▸ List.mem_cons_of_mem v hv')
  · rw [List.filterMap_append, hw.donated]
    exact congrArg List.length (List.append_nil _).symm

/-- Beginning a group begins its block. -/
theorem Own.begin_blocks (hw : Own spec ks τ workers i ds w g) (hvisits : w.visits = [])
    {k : Key} {o : Nat} {rest : List (Key × Nat)} (hpending : w.pending = (k, o) :: rest)
    {slot : Nat} (hfind : g.find k = some slot) (donated : Bool) {now later : List Deed}
    (hblock : now ++ later = Block.deeds spec.aggregates.length ⟨k, slot, donated⟩) :
    ∃ blocks : List Block, blocks.map (·.key) ++ rest.map Prod.fst = ks i ∧
      (ds ++ now) ++ later = blocks.flatMap (Block.deeds spec.aggregates.length) ∧
      ∀ b ∈ blocks, g.find b.key = some b.slot := by
  obtain ⟨blocks, hkeys, hdeeds, hfound⟩ := hw.blocks
  refine ⟨blocks ++ [⟨k, slot, donated⟩], ?_, ?_, fun b hb => ?_⟩
  · rw [hpending] at hkeys
    rw [← hkeys, List.map_append, List.append_assoc]
    rfl
  · rw [hvisits, List.map_nil, List.append_nil] at hdeeds
    rw [List.append_assoc, hblock, List.flatMap_append, ← hdeeds, List.flatMap_singleton]
  · rcases List.mem_append.mp hb with hb | hb
    · exact hfound b hb
    · rw [List.mem_singleton.mp hb]
      exact hfind

/-- **A donor** hands over the tallies of its group, and has done a block by that. -/
theorem Own.donate (hks : ∀ i, ∀ k ∈ ks i, spec.IsHashed k) (hg : Common spec ks τ workers h g)
    (hw : Own spec ks τ workers i ds w g) (hvisits : w.visits = []) {k : Key} {o : Nat}
    {rest : List (Key × Nat)} (hpending : w.pending = (k, o) :: rest) (hnew : g.find k = none) :
    ∃ states, LocalStates.take o w.states =
        .ok ((spec.aggregates.map (τ i k.values)).map .ofTally, states) ∧
      ∀ entry, Own spec ks τ workers i (ds ++ [.donate g.size])
        { w with pending := rest, states := states, donated := w.donated + 1 }
        (g.insert k entry) := by
  have hmem : (k, o) ∈ w.pending := hpending ▸ List.mem_cons_self
  have hhash : spec.IsHashed k := hks i k (hw.mem_of_pending hmem)
  obtain ⟨gs, hholds, hthere⟩ := hw.states
  obtain ⟨states, htake, hholds'⟩ := LawfulStates.holds_take hholds (hthere _ hmem)
  refine ⟨states, htake, fun entry => ?_⟩
  have hplaces := hw.places
  rw [hpending] at hplaces
  obtain ⟨hplace, hplaces⟩ := List.pairwise_cons.mp hplaces
  have hgrown := hw.stable hks (SharedDictionary.grows_insert hg.index hhash hnew entry)
  have hfind := SharedDictionary.find_insert_self hg.index hhash hnew entry
  refine ⟨hw.known, ⟨gs.set o none, hholds', fun e he => ?_⟩, hplaces, ?_, ?_, ?_⟩
  · rw [List.getElem?_set_ne (hplace e he)]
    exact hthere e (hpending ▸ List.mem_cons_of_mem _ he)
  · show ∃ blocks, _ ∧ _ ++ List.map _ w.visits = _ ∧ _
    rw [hvisits]
    exact hgrown.begin_blocks hvisits hpending hfind true rfl
  · exact hgrown.visits
  · rw [List.filterMap_append, List.length_append, ← hw.donated]
    rfl

/-- **A folder** reads the tallies of its group, and has a visit to pay for each of them. -/
theorem Own.meet (hw : Own spec ks τ workers i ds w g) (hvisits : w.visits = []) {k : Key}
    {o : Nat} {rest : List (Key × Nat)} (hpending : w.pending = (k, o) :: rest) {slot : Nat}
    (hfind : g.find k = some slot) :
    LocalStates.tallies w.states o = .ok (spec.aggregates.map (τ i k.values)) ∧
      Own spec ks τ workers i (ds ++ [.meet slot])
        { w with
          pending := rest,
          visits := foldVisits spec.aggregates slot (spec.aggregates.map (τ i k.values)) } g := by
  have hmem : (k, o) ∈ w.pending := hpending ▸ List.mem_cons_self
  obtain ⟨gs, hholds, hthere⟩ := hw.states
  have hplaces := hw.places
  rw [hpending] at hplaces
  have hfolds : foldVisits spec.aggregates slot (spec.aggregates.map (τ i k.values)) =
      spec.aggregates.zipIdx.map fun p => ⟨slot, p.2, p.1.function, .merge (τ i k.values p.1)⟩ := by
    rw [foldVisits, List.zip_map_right, List.zip_eq_zipWith, List.zipWith_self, List.map_map,
      List.zipIdx_map, List.map_map]
    rfl
  refine ⟨LawfulStates.tallies_eq hholds (hthere _ hmem), hw.known,
    ⟨gs, hholds, fun e he => hthere e (hpending ▸ List.mem_cons_of_mem _ he)⟩,
    (List.pairwise_cons.mp hplaces).2, ?_, fun v hv => ?_, ?_⟩
  · refine hw.begin_blocks hvisits hpending hfind false ?_
    rw [hfolds, List.map_map]
    show .meet slot :: spec.aggregates.zipIdx.map (Deed.fold slot ∘ Prod.snd) = _
    rw [← List.map_map, List.zipIdx_map_snd, ← List.range_eq_range']
    rfl
  · rw [show Flusher.visits _ = _ from hfolds] at hv
    obtain ⟨p, hp, rfl⟩ := List.mem_map.mp hv
    exact ⟨k, hw.mem_of_pending hmem, p.1, hfind, List.mem_zipIdx_iff_getElem?.mp hp, rfl, rfl⟩
  · rw [List.filterMap_append, hw.donated]
    exact congrArg List.length (List.append_nil _).symm

/-- **Every step** keeps what is common and what is the flusher's own. -/
theorem discipline (hks : ∀ i, ∀ k ∈ ks i, spec.IsHashed k) :
    Crew.Discipline (step spec.aggregates) deeds (Common spec ks τ workers)
      (Own spec ks τ workers (σ := σ)) (SharedDictionary.Grows spec) := by
  refine ⟨fun {h g i w} hg hw => ?_, fun hw hgrows => hw.stable hks hgrows⟩
  cases hvisits : w.visits with
  | cons v rest =>
    -- a group is being folded in: one more bucket
    obtain ⟨k, hk, a, hfind, ha, hfunction, hcall⟩ :=
      hw.visits v (hvisits ▸ List.mem_cons_self)
    have hgrows : g.Grows spec (v.perform g) := SharedDictionary.grows_modify g _ _
    refine ⟨{ w with visits := rest }, v.perform g, ?_, ?_, ?_, hgrows⟩
    · rw [step, hvisits]
    · rw [deeds, hvisits]
      exact hg.fold hw.known (hks i k hk) hfind ha hfunction hcall
    · rw [deeds, hvisits]
      exact (hw.fold hvisits).stable hks hgrows
  | nil =>
    cases hpending : w.pending with
    | nil =>
      refine ⟨w, g, ?_, ?_, ?_, .refl g⟩
      · rw [step, hvisits, hpending]
      · rw [deeds, hvisits, hpending, List.map_nil, List.append_nil]
        exact hg
      · rw [deeds, hvisits, hpending, List.append_nil]
        exact hw
    | cons e rest =>
      obtain ⟨k, o⟩ := e
      have hk : k ∈ ks i := hw.mem_of_pending (hpending ▸ List.mem_cons_self)
      cases hfind : g.find k with
      | none =>
        -- nobody has the key yet: the group becomes the slot
        obtain ⟨states, htake, hown⟩ := hw.donate hks hg hvisits hpending hfind
        have hdeeds : w.deeds g = [.donate g.size] := by
          rw [deeds, hvisits, hpending]
          dsimp only
          rw [hfind]
        refine ⟨{ w with pending := rest, states := states, donated := w.donated + 1 },
          g.insert k ((spec.aggregates.map (τ i k.values)).map .ofTally), ?_, ?_, ?_,
          SharedDictionary.grows_insert hg.index (hks i k hk) hfind _⟩
        · rw [step, hvisits, hpending]
          dsimp only
          rw [beginGroup, hfind, htake]
          rfl
        · rw [hdeeds]
          exact hg.donate hw.known hk (hks i k hk) hfind
        · rw [hdeeds]
          exact hown _
      | some slot =>
        -- somebody has the key: the folds are to come, aggregate by aggregate
        obtain ⟨htallies, hown⟩ := hw.meet hvisits hpending hfind
        have hdeeds : w.deeds g = [.meet slot] := by
          rw [deeds, hvisits, hpending]
          dsimp only
          rw [hfind]
        refine ⟨{ w with
            pending := rest,
            visits := foldVisits spec.aggregates slot (spec.aggregates.map (τ i k.values)) },
          g, ?_, ?_, ?_, .refl g⟩
        · rw [step, hvisits, hpending]
          dsimp only
          rw [beginGroup, hfind, htallies]
          rfl
        · rw [hdeeds]
          exact hg.meet hw.known slot
        · rw [hdeeds]
          exact hown

end Invariants
end Flusher
end Cohort
