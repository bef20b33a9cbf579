import Cohort.Proofs.Job.Scan
import Cohort.Proofs.Shared.History
import Cohort.Proofs.Shared.Slots
import Cohort.Shared.Scanner
/-
  SCANNING into shared groups under every interleaving.

  1. **Deeds.**  What counts is which row was folded into which bucket.  A scanner looks a row up,
     perhaps adds its key, and then folds it into one bucket after the other; its deeds so far,
     together with the visits in hand, are those of whole rows (`Own.blocks`).

  2. **Shared groups.**  A bucket holds the fold of the rows that were folded into it, in the order
     in which they were (`Common.entries`).  A key stands for the FIRST row of its group that the
     worker who added it has come by (`Common.source`).

  3. **Step.**  `Turn` says once what a step can do.  Between a lookup that finds nothing and the
     second look, another worker may add the key.  The second look then finds it, so no matter who
     adds it, there is one slot, and it is found from then on (`discipline`).
-/

namespace Cohort

namespace Scanner

/-! ## Deeds -/

/-- A row is folded into a bucket. -/
structure Deed where
  row : Nat
  slot : Nat
  aggregate : Nat
deriving DecidableEq

/-- Who did what, in the order of the steps. -/
abbrev History := List (Nat × Deed)

/-- What a scanner is about to do with the row in hand, which its evaluator remembers. -/
def inHand (w : Scanner) : List Deed :=
  w.visits.map fun v => ⟨w.evaluator.row.getD 0, v.slot, v.aggregate⟩

/-- What the next step of a scanner folds, if it folds. -/
def deeds (w : Scanner) (_ : SharedGroups) : List Deed := w.inHand.take 1

/-- The row that a deed folds into a bucket, if it is about this bucket. -/
def Deed.rowAt (slot aggregate : Nat) (d : Deed) : Option Nat :=
  if d.slot = slot ∧ d.aggregate = aggregate then some d.row else none

/-- The rows that were folded into a bucket, in the order of the steps. -/
def folded (h : History) (slot aggregate : Nat) : List Nat :=
  h.filterMap fun e => e.2.rowAt slot aggregate

theorem folded_append (h h' : History) (s j : Nat) :
    folded (h ++ h') s j = folded h s j ++ folded h' s j := List.filterMap_append

theorem folded_concat_self (h : History) (i row s j : Nat) :
    folded (h ++ [(i, ⟨row, s, j⟩)]) s j = folded h s j ++ [row] := by
  rw [folded_append]
  congr 1
  rw [folded, List.filterMap_cons, Deed.rowAt, if_pos ⟨rfl, rfl⟩]
  rfl

theorem folded_concat_of_ne (h : History) (i : Nat) {d : Deed} {s j : Nat}
    (hd : ¬ (d.slot = s ∧ d.aggregate = j)) : folded (h ++ [(i, d)]) s j = folded h s j := by
  rw [folded_append]
  have hnone : folded [(i, d)] s j = [] := by
    rw [folded, List.filterMap_cons, Deed.rowAt, if_neg hd]
    rfl
  rw [hnone, List.append_nil]

section Rows

variable (aggregates : List Aggregate) (t : Table)

/-- The deeds for one row whose group has a slot: one for every aggregate it contributes to. -/
def rowDeeds (b : Nat × Nat) : List Deed :=
  aggregates.zipIdx.filterMap fun p => (p.1.input? t b.1).map fun _ => ⟨b.1, b.2, p.2⟩

theorem inHand_updateVisits (ev : KeyEvaluator) (pending : List Nat) {row : Nat} (slot : Nat)
    (hrow : ev.row = some row) :
    inHand ⟨ev, pending, none, updateVisits aggregates t row slot⟩ =
      rowDeeds aggregates t (row, slot) := by
  show (updateVisits aggregates t row slot).map _ = _
  rw [hrow, updateVisits, List.map_filterMap, rowDeeds]
  refine List.filterMap_congr fun p _ => ?_
  rw [Option.map_map]
  rfl

end Rows

/-! ## What a step can do -/

/-- The slot at which a row finds its group. -/
structure Meeting where
  row : Nat
  slot : Nat
deriving DecidableEq

/-- The meeting that the next step of a scanner brings, if it brings one. -/
def meetings (aggregates : List Aggregate) (t : Table) (w : Scanner) (g : SharedGroups) :
    List Meeting :=
  match w.visits, w.absent, w.pending with
  | _ :: _, _, _ => []
  | [], some row, _ =>
    [⟨row, (g.getOrInsertWith (w.evaluator.keyAt row) fun _ => newBuckets aggregates).1.1⟩]
  | [], none, [] => []
  | [], none, row :: _ =>
    ((g.findRemembered (w.evaluator.visit t row)).map (Meeting.mk row)).toList

section Turns

variable [FloatAddition]

/-- What a step of a scanner can do: what is met by it, and scanner and groups afterwards. -/
inductive Turn (spec : GroupingSpec) (t : Table) (w : Scanner) (g : SharedGroups) :
    List Meeting → Scanner → SharedGroups → Prop
  /-- The row in hand goes into one more bucket. -/
  | fold {v : Visit} {rest : List Visit} (hvisits : w.visits = v :: rest) :
      Turn spec t w g [] { w with visits := rest } (v.perform g)
  /-- The row in hand, or the next one, is found. -/
  | meet {row slot : Nat} {rest : List Nat} {ev : KeyEvaluator} (hvisits : w.visits = [])
      (hnext : w.absent.toList ++ w.pending = row :: rest) (hev : ev.IsCoherent spec t)
      (hrow : ev.row = some row) (hfind : g.find (spec.keyAt t row) = some slot) :
      Turn spec t w g [⟨row, slot⟩]
        ⟨ev, rest, none, updateVisits spec.aggregates t row slot⟩ g
  /-- The row in hand is still not there: its key gets a slot. -/
  | add {row : Nat} (hvisits : w.visits = []) (habsent : w.absent = some row)
      (hnew : g.find (spec.keyAt t row) = none) :
      Turn spec t w g [⟨row, g.size⟩]
        ⟨w.evaluator, w.pending, none, updateVisits spec.aggregates t row g.size⟩
        (SharedDictionary.insert g (spec.keyAt t row) (newBuckets spec.aggregates))
  /-- The next row is not there: it is taken in hand. -/
  | take {row : Nat} {rest : List Nat} {ev : KeyEvaluator} (hvisits : w.visits = [])
      (habsent : w.absent = none) (hpending : w.pending = row :: rest)
      (hev : ev.IsCoherent spec t) (hrow : ev.row = some row)
      (hnew : g.find (spec.keyAt t row) = none) :
      Turn spec t w g [] ⟨ev, rest, some row, []⟩ g
  /-- Nothing is left to do. -/
  | rest (hvisits : w.visits = []) (habsent : w.absent = none) (hpending : w.pending = []) :
      Turn spec t w g [] w g

/-- **Every step is one of these**, if the evaluator remembers the row in hand. -/
theorem turn_step {spec : GroupingSpec} {t : Table} {w : Scanner} (g : SharedGroups)
    (hev : w.evaluator.IsCoherent spec t)
    (hrow : ∀ row, w.absent = some row → w.evaluator.row = some row) :
    Turn spec t w g (meetings spec.aggregates t w g) (step spec.aggregates t w g).1
      (step spec.aggregates t w g).2 := by
  cases hvisits : w.visits with
  | cons v rest =>
    rw [meetings, step, hvisits]
    exact .fold hvisits
  | nil =>
    cases habsent : w.absent with
    | some row =>
      have hkey := hev.memory row (hrow row habsent)
      rw [meetings, step, hvisits, habsent]
      dsimp only
      rw [SharedDictionary.getOrInsertWith, hkey]
      -- others may have added the key meanwhile, so it is looked up again
      cases hfind : g.find (spec.keyAt t row) with
      | some slot =>
        refine .meet hvisits ?_ hev (hrow row habsent) hfind
        rw [habsent]
        rfl
      | none => exact .add hvisits habsent hfind
    | none =>
      cases hpending : w.pending with
      | nil =>
        rw [meetings, step, hvisits, habsent, hpending]
        exact .rest hvisits habsent hpending
      | cons row rest =>
        have hlookup : g.findRemembered (w.evaluator.visit t row) = g.find (spec.keyAt t row) := by
          rw [← hev.keyAt_visit row]
          exact Dictionary.findRemembered_eq_find _ _ _
        rw [meetings, step, hvisits, habsent, hpending]
        dsimp only
        rw [hlookup]
        cases hfind : g.find (spec.keyAt t row) with
        | some slot =>
          refine .meet hvisits ?_ (hev.visit row) (w.evaluator.row_visit t row) hfind
          rw [habsent, hpending]
          rfl
        | none =>
          exact .take hvisits habsent hpending (hev.visit row) (w.evaluator.row_visit t row) hfind

end Turns

/-! ## What is a scanner's own -/

section Invariants

/-- What holds of one scanner that has done some deeds. -/
structure Own (spec : GroupingSpec) (t : Table) (rows : Nat → List Nat) (workers i : Nat)
    (ds : List Deed) (w : Scanner) (g : SharedGroups) : Prop where
  known : i < workers
  evaluator : w.evaluator.IsCoherent spec t
  /-- Every row begun has its deeds, at the slot of its key. -/
  blocks : ∃ blocks : List (Nat × Nat),
    blocks.map Prod.fst ++ (w.absent.toList ++ w.pending) = rows i ∧
    ds ++ w.inHand = blocks.flatMap (rowDeeds spec.aggregates t) ∧
    ∀ b ∈ blocks, g.find (spec.keyAt t b.1) = some b.2
  /-- Visits bring the words of the row in hand. -/
  visits : ∀ v ∈ w.visits, ∃ row a word, w.evaluator.row = some row ∧
    g.find (spec.keyAt t row) = some v.slot ∧ spec.aggregates[v.aggregate]? = some a ∧
    a.input? t row = some word ∧ v.function = a.function ∧ v.call = .update word
  absent : ∀ row, w.absent = some row → w.visits = [] ∧ w.evaluator.row = some row

variable {spec : GroupingSpec} {t : Table} {rows : Nat → List Nat} {workers i : Nat}
variable {h : History} {ds : List Deed} {w : Scanner} {g g' : SharedGroups}

/-- **What is a scanner's own stays so**, as others add slots and move none. -/
theorem Own.stable (hw : Own spec t rows workers i ds w g) (hgrows : g.Grows spec g') :
    Own spec t rows workers i ds w g' := by
  obtain ⟨blocks, hrows, hdeeds, hfound⟩ := hw.blocks
  refine ⟨hw.known, hw.evaluator, ⟨blocks, hrows, hdeeds, fun b hb => ?_⟩, fun v hv => ?_,
    hw.absent⟩
  · exact hgrows _ _ (spec.isHashed_keyAt t b.1) (hfound b hb)
  · obtain ⟨row, a, word, hrow, hfind, hrest⟩ := hw.visits v hv
    exact ⟨row, a, word, hrow, hgrows _ _ (spec.isHashed_keyAt t row) hfind, hrest⟩

/-- A scanner that folds does so for its row, at the slot of the row's key. -/
theorem Own.fold {v : Visit} {rest : List Visit} (hw : Own spec t rows workers i ds w g)
    (hvisits : w.visits = v :: rest) :
    ∃ row a word, w.evaluator.row = some row ∧ w.deeds g = [⟨row, v.slot, v.aggregate⟩] ∧
      g.find (spec.keyAt t row) = some v.slot ∧ spec.aggregates[v.aggregate]? = some a ∧
      a.input? t row = some word ∧ v.function = a.function ∧ v.call = .update word ∧
      Own spec t rows workers i (ds ++ [⟨row, v.slot, v.aggregate⟩])
        { w with visits := rest } g := by
  obtain ⟨row, a, word, hrow, hfind, ha, hword, hfunction, hcall⟩ :=
    hw.visits v (hvisits ▸ List.mem_cons_self)
  have hinHand : w.inHand = ⟨row, v.slot, v.aggregate⟩ :: inHand { w with visits := rest } := by
    rw [inHand, hvisits, hrow]
    show _ = _ :: rest.map _
    rw [hrow]
    rfl
  refine ⟨row, a, word, hrow, ?_, hfind, ha, hword, hfunction, hcall, ?_⟩
  · rw [deeds, hinHand]
    rfl
  obtain ⟨blocks, hrows, hdeeds, hfound⟩ := hw.blocks
  refine ⟨hw.known, hw.evaluator, ⟨blocks, hrows, ?_, hfound⟩, fun v' hv' => ?_, fun row' h' => ?_⟩
  · rw [List.append_assoc, ← hdeeds, hinHand]
    rfl
  · exact hw.visits v' (hvisits ▸ List.mem_cons_of_mem v hv')
  · -- a row is in hand only while no visits are
    have hnone := (hw.absent row' h').1
    rw [hvisits] at hnone
    cases hnone

/-- The row in hand, or the next one, has a slot: its visits are in hand from now on. -/
theorem Own.beginRow (hw : Own spec t rows workers i ds w g) (hvisits : w.visits = []) {row : Nat}
    {rest : List Nat} (hnext : w.absent.toList ++ w.pending = row :: rest) {ev : KeyEvaluator}
    (hev : ev.IsCoherent spec t) (hrow : ev.row = some row) {slot : Nat}
    (hfind : g.find (spec.keyAt t row) = some slot) :
    Own spec t rows workers i ds ⟨ev, rest, none, updateVisits spec.aggregates t row slot⟩ g := by
  obtain ⟨blocks, hrows, hdeeds, hfound⟩ := hw.blocks
  have hnothing : w.inHand = [] := by rw [inHand, hvisits, List.map_nil]
  refine ⟨hw.known, hev, ⟨blocks ++ [(row, slot)], ?_, ?_, fun b hb => ?_⟩, fun v hv => ?_,
    nofun⟩
  · rw [hnext] at hrows
    rw [← hrows, List.map_append, List.append_assoc]
    rfl
  · rw [hnothing, List.append_nil] at hdeeds
    rw [inHand_updateVisits spec.aggregates t ev rest slot hrow, List.flatMap_append, ← hdeeds,
      List.flatMap_singleton]
  · rcases List.mem_append.mp hb with hb | hb
    · exact hfound b hb
    · rw [List.mem_singleton.mp hb]
      exact hfind
  · obtain ⟨p, hp, hv⟩ := List.mem_filterMap.mp hv
    obtain ⟨word, hword, rfl⟩ := Option.map_eq_some_iff.mp hv
    exact ⟨row, p.1, word, hrow, hfind, List.mem_zipIdx_iff_getElem?.mp hp, hword, rfl, rfl⟩

/-- The next row has no slot yet: it is taken in hand. -/
theorem Own.takeRow (hw : Own spec t rows workers i ds w g) (hvisits : w.visits = [])
    (habsent : w.absent = none) {row : Nat} {rest : List Nat} (hpending : w.pending = row :: rest)
    {ev : KeyEvaluator} (hev : ev.IsCoherent spec t) (hrow : ev.row = some row) :
    Own spec t rows workers i ds ⟨ev, rest, some row, []⟩ g := by
  obtain ⟨blocks, hrows, hdeeds, hfound⟩ := hw.blocks
  have hnothing : w.inHand = [] := by rw [inHand, hvisits, List.map_nil]
  refine ⟨hw.known, hev, ⟨blocks, ?_, ?_, hfound⟩, nofun, fun row' h' => ?_⟩
  · rw [habsent, hpending] at hrows
    exact hrows
  · rw [hnothing] at hdeeds
    exact hdeeds
  · cases h'
    exact ⟨rfl, hrow⟩

/-! ## What is common -/

variable [FloatAddition]

/-- The tally of the rows that were folded into a bucket. -/
def collected (t : Table) (h : History) (s j : Nat) (a : Aggregate) : Tally :=
  a.tallyOf t (folded h s j)

/-- What the shared groups hold after some steps of `workers` scanners, of which number `i` has the
    rows `rows i`. -/
structure Common (spec : GroupingSpec) (t : Table) (rows : Nat → List Nat) (workers : Nat)
    (h : History) (g : SharedGroups) : Prop where
  index : g.dictionary.IsIndex spec
  known : ∀ e ∈ h, e.1 < workers
  slots : ∀ e ∈ h, e.2.slot < g.size
  source : ∀ k ∈ g.dictionary.keys.toList, ∃ i < workers, k ∈ spec.discovered t (rows i)
  entries : SharedDictionary.Entries
    (fun s _ buckets => Bucket.Hold spec.aggregates (collected t h s) buckets) g

/-- **A fold** brings the word of a row into one bucket. -/
theorem Common.fold (hg : Common spec t rows workers h g) (hi : i < workers) {v : Visit}
    {row : Nat} {a : Aggregate} {word : UInt64}
    (hfind : g.find (spec.keyAt t row) = some v.slot)
    (ha : spec.aggregates[v.aggregate]? = some a) (hword : a.input? t row = some word)
    (hfunction : v.function = a.function) (hcall : v.call = .update word) :
    Common spec t rows workers (h ++ [(i, ⟨row, v.slot, v.aggregate⟩)]) (v.perform g) := by
  have hsize : (v.perform g).size = g.size := SharedDictionary.size_modify _ _ _
  have hslot := SharedDictionary.lt_size_of_find hg.index (spec.isHashed_keyAt t row) hfind
  refine ⟨hg.index, List.forall_mem_append.mpr ⟨hg.known, List.forall_mem_singleton.mpr hi⟩, ?_,
    hg.source, ?_⟩
  · rw [hsize]
    exact List.forall_mem_append.mpr ⟨hg.slots, List.forall_mem_singleton.mpr hslot⟩
  · refine SharedDictionary.entries_modify hg.entries (fun k buckets _ hholds => ?_)
      (fun s k buckets hne hholds => ?_)
    · refine hholds.perform ha ?_ fun j a' hj => ?_
      · have hstep : a.tallyOf t (folded h v.slot v.aggregate ++ [row]) =
            a.function.update (a.tallyOf t (folded h v.slot v.aggregate)) word := by
          rw [a.tallyOf_concat, Aggregate.updateTally, hword]
        rw [hfunction, hcall, collected, collected, folded_concat_self, hstep]
        exact Bucket.perform_update _ _ _
      · rw [collected, folded_concat_of_ne h i fun hd => hj hd.2]
        rfl
    · refine hholds.congr fun j a' => ?_
      rw [collected, folded_concat_of_ne h i fun hd => hne hd.1]
      rfl

/-- **A new key** gets a slot with empty buckets. -/
theorem Common.insert (hg : Common spec t rows workers h g) (hi : i < workers) {row : Nat}
    (hsource : spec.keyAt t row ∈ spec.discovered t (rows i))
    (hnew : g.find (spec.keyAt t row) = none) :
    Common spec t rows workers h
      (SharedDictionary.insert g (spec.keyAt t row) (newBuckets spec.aggregates)) := by
  refine ⟨hg.index.insert (spec.isHashed_keyAt t row) hnew, hg.known, fun e he => ?_,
    fun k hk => ?_, ?_⟩
  · rw [SharedDictionary.size_insert]
    exact Nat.lt_succ_of_lt (hg.slots e he)
  · rw [SharedDictionary.keys_insert] at hk
    rcases List.mem_append.mp hk with hk | hk
    · exact hg.source k hk
    · exact ⟨i, hi, List.mem_singleton.mp hk ▸ hsource⟩
  · refine SharedDictionary.entries_insert hg.entries (fun _ _ _ _ hholds => hholds) ?_
    have hempty : newBuckets spec.aggregates =
        (spec.aggregates.map fun _ => Tally.empty).map Bucket.ofTally := by
      rw [newBuckets, List.map_map]
      rfl
    rw [hempty]
    refine (Bucket.hold_map fun _ => Tally.empty).congr fun j a => ?_
    -- nobody can have folded into a slot that was not there
    have hnobody : folded h g.size j = [] := by
      refine List.filterMap_eq_nil_iff.mpr fun e he => ?_
      have hslot := hg.slots e he
      exact if_neg fun hd => absurd hd.1 (Nat.ne_of_lt hslot)
    rw [collected, hnobody, Aggregate.tallyOf_nil]

/-- A row whose key is not there is the first of its group that the scanner has come by. -/
theorem Own.mem_discovered (hg : Common spec t rows workers h g)
    (hw : Own spec t rows workers i ds w g) {row : Nat} {rest : List Nat}
    (hnext : w.absent.toList ++ w.pending = row :: rest)
    (hnew : g.find (spec.keyAt t row) = none) : spec.keyAt t row ∈ spec.discovered t (rows i) := by
  obtain ⟨blocks, hrows, -, hfound⟩ := hw.blocks
  -- every row begun has found a slot for its key, and this one would have found the same
  have hunseen : ∀ r ∈ blocks.map Prod.fst, spec.valuesAt t r ≠ spec.valuesAt t row := by
    intro r hr hv
    obtain ⟨b, hb, rfl⟩ := List.mem_map.mp hr
    obtain ⟨k, hk, hkv⟩ :=
      (hg.index.find_eq_some_iff (spec.isHashed_keyAt t b.1)).mp (hfound b hb)
    have hfind := (hg.index.find_eq_some_iff (spec.isHashed_keyAt t row)).mpr
      ⟨k, hk, hkv.trans hv⟩
    exact absurd (hfind.symm.trans hnew) (by simp)
  have hsplit : rows i = (blocks.map Prod.fst ++ [row]) ++ rest := by
    rw [← hrows, hnext, List.append_assoc]
    rfl
  rw [hsplit, spec.discovered_append, GroupingSpec.discovered, GroupingSpec.firstRows,
    firsts_concat_of_not_mem hunseen, List.map_append]
  exact List.mem_append_left _ (List.mem_append_right _ (List.mem_singleton.mpr rfl))

/-! ## Steps -/

/-- **Every step** keeps what is common and what is the scanner's own. -/
theorem discipline :
    Crew.Discipline (fun w g => .ok (step spec.aggregates t w g)) deeds (Common spec t rows workers)
      (Own spec t rows workers) (SharedDictionary.Grows spec) := by
  refine ⟨fun {h g i w} hg hw => ?_, fun hw hgrows => hw.stable hgrows⟩
  have hturn := turn_step g hw.evaluator fun row hrow => (hw.absent row hrow).2
  generalize meetings spec.aggregates t w g = met at hturn
  generalize step spec.aggregates t w g = next at hturn ⊢
  obtain ⟨w', g'⟩ := next
  refine ⟨w', g', rfl, ?_⟩
  have hidle : w.visits = [] → w.deeds g = [] := by
    intro hvisits
    rw [deeds, inHand, hvisits, List.map_nil, List.take_nil]
  cases hturn with
  | @fold v rest hvisits =>
    obtain ⟨row, a, word, -, hdeeds, hfind, ha, hword, hfunction, hcall, hown⟩ := hw.fold hvisits
    have hgrows : g.Grows spec (v.perform g) := SharedDictionary.grows_modify g _ _
    rw [hdeeds]
    exact ⟨hg.fold hw.known hfind ha hword hfunction hcall, hown.stable hgrows, hgrows⟩
  | meet hvisits hnext hev hrow hfind =>
    rw [hidle hvisits, List.map_nil, List.append_nil, List.append_nil]
    exact ⟨hg, hw.beginRow hvisits hnext hev hrow hfind, .refl _⟩
  | @add row hvisits habsent hnew =>
    have hnext : w.absent.toList ++ w.pending = row :: w.pending := by rw [habsent]; rfl
    have hhash := spec.isHashed_keyAt t row
    have hgrows := SharedDictionary.grows_insert hg.index hhash hnew (newBuckets spec.aggregates)
    have hself := SharedDictionary.find_insert_self hg.index hhash hnew
      (newBuckets spec.aggregates)
    rw [hidle hvisits, List.map_nil, List.append_nil, List.append_nil]
    exact ⟨hg.insert hw.known (hw.mem_discovered hg hnext hnew) hnew,
      (hw.stable hgrows).beginRow hvisits hnext hw.evaluator (hw.absent row habsent).2 hself,
      hgrows⟩
  | take hvisits habsent hpending hev hrow hnew =>
    rw [hidle hvisits, List.map_nil, List.append_nil, List.append_nil]
    exact ⟨hg, hw.takeRow hvisits habsent hpending hev hrow, .refl _⟩
  | rest hvisits habsent hpending =>
    rw [hidle hvisits, List.map_nil, List.append_nil, List.append_nil]
    exact ⟨hg, hw, .refl _⟩

end Invariants
end Scanner
end Cohort
