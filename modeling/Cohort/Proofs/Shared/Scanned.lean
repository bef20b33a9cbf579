import Cohort.Proofs.Partition
import Cohort.Proofs.Shared.Scan
/-
  When all scanners are DONE, every row is in its group, once.

  1. **One row.**  The deeds of a row are one per aggregate it contributes to, so at one bucket
     there is one of them or none (`filterMap_rowDeeds`).

  2. **One scanner.**  What a scanner folded into a bucket are the rows it has of that group which
     contribute, in the order of its rows (`AllDone.rowsAt`).

  3. **All scanners.**  A bucket holds the fold of the rows of its group, each once, in an order
     that keeps the order of every scanner (`Scanned`).
-/

namespace Cohort

/-- Of a numbered list, what one number says. -/
theorem filterMap_zipIdx_at {α β : Type} (G : α → Option β) {a : α} :
    ∀ {l : List α} {j : Nat} (m : Nat), l[j]? = some a →
      ((l.zipIdx m).filterMap fun p => if p.2 = m + j then G p.1 else none) = (G a).toList
  | [], _, _, h => nomatch h
  | b :: l, 0, m, h => by
    have hb : b = a := Option.some.inj h
    have hrest : ((l.zipIdx (m + 1)).filterMap fun p => if p.2 = m + 0 then G p.1 else none) =
        [] := by
      refine List.filterMap_eq_nil_iff.mpr fun p hp => if_neg ?_
      have hle := List.le_snd_of_mem_zipIdx hp
      omega
    rw [List.zipIdx_cons, List.filterMap_cons, hrest, Nat.add_zero, if_pos rfl, hb]
    cases G a <;> rfl
  | b :: l, j + 1, m, h => by
    rw [List.zipIdx_cons, List.filterMap_cons, if_neg (by omega)]
    have hshift : m + (j + 1) = m + 1 + j := by omega
    rw [hshift]
    exact filterMap_zipIdx_at G (m + 1) h

namespace Scanner

/-! ## One row -/

section Rows

variable {aggregates : List Aggregate} {t : Table}

/-- What a row leaves in one bucket. -/
theorem filterMap_rowDeeds {j : Nat} {a : Aggregate} (ha : aggregates[j]? = some a)
    (b : Nat × Nat) (s : Nat) :
    (rowDeeds aggregates t b).filterMap (Deed.rowAt s j) =
      if b.2 = s ∧ (a.input? t b.1).isSome then [b.1] else [] := by
  have hone := filterMap_zipIdx_at (fun a' : Aggregate =>
    if b.2 = s ∧ (a'.input? t b.1).isSome then some b.1 else none) 0 ha
  rw [rowDeeds, List.filterMap_filterMap]
  have hsame : ∀ p : Aggregate × Nat,
      (((p.1.input? t b.1).map fun _ => Deed.mk b.1 b.2 p.2).bind (Deed.rowAt s j)) =
        if p.2 = 0 + j then
          (if b.2 = s ∧ (p.1.input? t b.1).isSome then some b.1 else none) else none := by
    intro p
    rw [Nat.zero_add]
    cases p.1.input? t b.1 with
    | none => simp
    | some word =>
      rw [Option.map_some, Option.bind_some, Deed.rowAt]
      by_cases hs : b.2 = s <;> by_cases hj : p.2 = j <;> simp [hs, hj]
  rw [List.filterMap_congr fun p _ => hsame p, hone]
  split <;> rfl

theorem row_of_mem_rowDeeds {b : Nat × Nat} {d : Deed} (hd : d ∈ rowDeeds aggregates t b) :
    d.row = b.1 ∧ d.slot = b.2 := by
  obtain ⟨p, -, hp⟩ := List.mem_filterMap.mp hd
  obtain ⟨word, -, rfl⟩ := Option.map_eq_some_iff.mp hp
  exact ⟨rfl, rfl⟩

end Rows

/-! ## The end -/

/-- A scanner with nothing left to scan. -/
def IsDone (w : Scanner) : Prop := w.visits = [] ∧ w.absent = none ∧ w.pending = []

theorem isDone_of_cost {aggregates : List Aggregate} {w : Scanner} (h : cost aggregates w = 0) :
    w.IsDone := by
  have hparts := Nat.add_eq_zero_iff.mp h
  have hvisits := Nat.add_eq_zero_iff.mp hparts.1
  refine ⟨List.length_eq_zero_iff.mp hvisits.1, ?_, List.length_eq_zero_iff.mp ?_⟩
  · cases habsent : w.absent with
    | none => rfl
    | some row =>
      have hzero := hvisits.2
      rw [habsent, Option.isSome_some, if_pos rfl] at hzero
      omega
  · rcases Nat.mul_eq_zero.mp hparts.2 with hzero | hzero
    · exact hzero
    · omega

theorem length_updateVisits_le (aggregates : List Aggregate) (t : Table) (row slot : Nat) :
    (updateVisits aggregates t row slot).length ≤ aggregates.length := by
  have hle := List.length_filterMap_le (fun p : Aggregate × Nat =>
    (p.1.input? t row).map fun word => Visit.mk slot p.2 p.1.function (.update word))
    aggregates.zipIdx
  rwa [List.length_zipIdx] at hle

variable [FloatAddition]

/-- Every step lowers the bound on the steps still to take. -/
theorem cost_of_step (aggregates : List Aggregate) (t : Table) (w : Scanner) (g : SharedGroups) :
    cost aggregates (step aggregates t w g).1 ≤ cost aggregates w - 1 := by
  unfold step
  split
  case h_1 v rest hvisits =>
    rw [cost, cost, hvisits, List.length_cons]
    show rest.length + (if w.absent.isSome then 1 + aggregates.length else 0) +
      w.pending.length * (2 + aggregates.length) ≤ _
    omega
  case h_2 hvisits =>
    split
    case h_1 row habsent =>
      have hbefore : cost aggregates w = 1 + aggregates.length +
          w.pending.length * (2 + aggregates.length) := by
        rw [cost, hvisits, habsent, Option.isSome_some, if_pos rfl, List.length_nil, Nat.zero_add]
      rw [hbefore]
      split
      case _ slot _ g' _ =>
        have hle := length_updateVisits_le aggregates t row slot
        show (updateVisits aggregates t row slot).length + 0 +
          w.pending.length * (2 + aggregates.length) ≤ _
        omega
    case h_2 habsent =>
      split
      case h_1 hpending =>
        rw [cost, hvisits, habsent, hpending, List.length_nil, List.length_nil, Nat.zero_mul]
        exact Nat.zero_le _
      case h_2 row rest hpending =>
        have hbefore : cost aggregates w = rest.length * (2 + aggregates.length) +
            (2 + aggregates.length) := by
          rw [cost, hvisits, habsent, hpending, List.length_cons, Nat.succ_mul]
          exact Nat.zero_add _
        rw [hbefore]
        dsimp only
        split
        case h_1 slot _ =>
          have hle := length_updateVisits_le aggregates t row slot
          show (updateVisits aggregates t row slot).length + 0 +
            rest.length * (2 + aggregates.length) ≤ _
          omega
        case h_2 =>
          show 0 + (1 + aggregates.length) + rest.length * (2 + aggregates.length) ≤ _
          omega

/-! ## From the start to the end -/

variable {spec : GroupingSpec} {t : Table} {rows : Nat → List Nat} {workers : Nat} {h : History}
variable {c : Crew Scanner SharedGroups}

/-- The scanners of some spans, before the first step. -/
def crew (evaluator : KeyEvaluator) (spans : List Span) : Crew Scanner SharedGroups :=
  ⟨spans.map (ofSpan evaluator), .empty⟩

theorem holds_crew {evaluator : KeyEvaluator} (hev : evaluator.IsCoherent spec t)
    (spans : List Span) :
    Crew.Holds (Common spec t (Span.rowsAt spans) spans.length)
      (Own spec t (Span.rowsAt spans) spans.length) [] (crew evaluator spans) := by
  refine ⟨⟨Dictionary.isIndex_empty spec, nofun, nofun, nofun, nofun⟩, fun i w hi => ?_⟩
  obtain ⟨span, hspan, rfl⟩ : ∃ span, spans[i]? = some span ∧ ofSpan evaluator span = w := by
    rw [crew, List.getElem?_map] at hi
    exact Option.map_eq_some_iff.mp hi
  refine ⟨(List.getElem?_eq_some_iff.mp hspan).1, hev, ⟨[], ?_, rfl, nofun⟩, nofun, nofun⟩
  rw [Span.rowsAt_of_getElem? hspan]
  rfl

/-- What there is when all scanners are done, scanner number `i` having the rows `rows i`. -/
structure Scanned (spec : GroupingSpec) (t : Table) (rows : Nat → List Nat) (workers : Nat)
    (h : History) (g : SharedGroups) : Prop where
  /-- No two entries have the same key values. -/
  distinct : g.dictionary.keys.toList.Pairwise fun a b => a.values ≠ b.values
  /-- There is an entry for the key values of every row, and no other. -/
  covered : ∀ values, (∃ k ∈ g.dictionary.keys.toList, k.values = values) ↔
    ∃ i < workers, ∃ row ∈ rows i, spec.valuesAt t row = values
  /-- A key stands for the first row of its group that some scanner has. -/
  source : ∀ k ∈ g.dictionary.keys.toList, ∃ i < workers, k ∈ spec.discovered t (rows i)
  /-- Nobody else has folded anything. -/
  known : ∀ e ∈ h, e.1 < workers
  /-- Whoever folded a row used the entry of its key. -/
  slots : ∀ e ∈ h, g.find (spec.keyAt t e.2.row) = some e.2.slot
  /-- A tally is the fold of the rows that were folded into its bucket, in the order of the steps;
      every scanner has folded its rows of the group that contribute, each once, in their order. -/
  tallies : ∀ s k, g.dictionary.keys.toList[s]? = some k → ∀ j a, spec.aggregates[j]? = some a →
    SharedGroups.load g j s = .ok (a.tallyOf t (folded h s j)) ∧
    ∀ i < workers, (Crew.ofWorker i h).filterMap (Deed.rowAt s j) =
      a.contributors t (spec.members t (rows i) k.values)

/-- What all scanners keep, and that they are done. -/
structure AllDone (spec : GroupingSpec) (t : Table) (rows : Nat → List Nat) (workers : Nat)
    (h : History) (c : Crew Scanner SharedGroups) : Prop where
  holds : Crew.Holds (Common spec t rows workers) (Own spec t rows workers) h c
  length : c.workers.length = workers
  done : ∀ w ∈ c.workers, w.IsDone

namespace AllDone

/-- What a scanner that is done has done: its rows, each at the slot of its key. -/
theorem blocks (hall : AllDone spec t rows workers h c) {i : Nat} (hi : i < workers) :
    ∃ blocks : List (Nat × Nat), blocks.map Prod.fst = rows i ∧
      Crew.ofWorker i h = blocks.flatMap (rowDeeds spec.aggregates t) ∧
      ∀ b ∈ blocks, c.shared.find (spec.keyAt t b.1) = some b.2 := by
  have hlt : i < c.workers.length := hall.length ▸ hi
  have hw := hall.holds.own i c.workers[i] (List.getElem?_eq_getElem hlt)
  obtain ⟨hvisits, habsent, hpending⟩ := hall.done _ (List.getElem_mem hlt)
  obtain ⟨blocks, hrows, hdeeds, hfound⟩ := hw.blocks
  refine ⟨blocks, ?_, ?_, hfound⟩
  · rw [habsent, hpending] at hrows
    exact (List.append_nil _).symm.trans hrows
  · rw [inHand, hvisits, List.map_nil, List.append_nil] at hdeeds
    exact hdeeds

/-- **What one scanner has folded into a bucket.** -/
theorem rowsAt (hall : AllDone spec t rows workers h c) {i : Nat} (hi : i < workers) {s : Nat}
    {k : Key} (hs : c.shared.dictionary.keys.toList[s]? = some k) {j : Nat} {a : Aggregate}
    (ha : spec.aggregates[j]? = some a) :
    (Crew.ofWorker i h).filterMap (Deed.rowAt s j) =
      a.contributors t (spec.members t (rows i) k.values) := by
  have hindex := hall.holds.common.index
  obtain ⟨blocks, hrows, hdeeds, hfound⟩ := hall.blocks hi
  -- a row was folded at the slot exactly if the slot is that of its key values
  have hslot : ∀ b ∈ blocks, b.2 = s ↔ spec.valuesAt t b.1 = k.values := by
    intro b hb
    have hhash := spec.isHashed_keyAt t b.1
    constructor
    · intro heq
      obtain ⟨k', hk', hv⟩ := (hindex.find_eq_some_iff hhash).mp (hfound b hb)
      rw [heq, hs] at hk'
      cases hk'
      exact hv.symm
    · intro hv
      have hfind := (hindex.find_eq_some_iff hhash).mpr ⟨k, hs, hv.symm⟩
      exact Option.some.inj ((hfound b hb).symm.trans hfind)
  rw [hdeeds, List.filterMap_flatMap, ← hrows]
  clear hdeeds hrows hfound
  induction blocks with
  | nil => rfl
  | cons b blocks ih =>
    have hb := hslot b List.mem_cons_self
    rw [List.flatMap_cons, filterMap_rowDeeds ha,
      ih fun b' hb' => hslot b' (List.mem_cons_of_mem b hb'), List.map_cons, spec.members_cons]
    by_cases hv : spec.valuesAt t b.1 = k.values
    · rw [if_pos hv, a.contributors_cons]
      by_cases hsome : (a.input? t b.1).isSome = true
      · rw [if_pos ⟨hb.mpr hv, hsome⟩, if_pos hsome]
        rfl
      · rw [if_neg fun hcond => hsome hcond.2, if_neg hsome]
        rfl
    · rw [if_neg hv, if_neg fun hcond => hv (hb.mp hcond.1)]
      rfl

/-- **Scanners that are done have grouped every row**, once. -/
theorem scanned (hall : AllDone spec t rows workers h c) :
    Scanned spec t rows workers h c.shared := by
  have hg := hall.holds.common
  refine ⟨hg.index.distinct, fun values => ⟨?_, ?_⟩, hg.source, hg.known, ?_, ?_⟩
  · rintro ⟨k, hk, hv⟩
    obtain ⟨i, hi, hki⟩ := hg.source k hk
    obtain ⟨row, hrow, hrv⟩ := (spec.exists_mem_discovered_iff t).mp ⟨k, hki, hv⟩
    exact ⟨i, hi, row, hrow, hrv⟩
  · rintro ⟨i, hi, row, hrow, hv⟩
    obtain ⟨blocks, hrows, -, hfound⟩ := hall.blocks hi
    rw [← hrows] at hrow
    obtain ⟨b, hb, rfl⟩ := List.mem_map.mp hrow
    obtain ⟨k, hk, hkv⟩ :=
      (hg.index.find_eq_some_iff (spec.isHashed_keyAt t b.1)).mp (hfound b hb)
    exact ⟨k, List.mem_of_getElem? hk, hkv.trans hv⟩
  · intro e he
    obtain ⟨blocks, -, hdeeds, hfound⟩ := hall.blocks (hg.known e he)
    have hown : e.2 ∈ Crew.ofWorker e.1 h := Crew.mem_ofWorker.mpr he
    rw [hdeeds] at hown
    obtain ⟨b, hb, hd⟩ := List.mem_flatMap.mp hown
    obtain ⟨hrow, hslot⟩ := row_of_mem_rowDeeds hd
    rw [hrow, hslot]
    exact hfound b hb
  · intro s k hs j a ha
    obtain ⟨buckets, hget, hholds⟩ := hg.entries s k hs
    exact ⟨hholds.load hget ha, fun i hi => hall.rowsAt hi hs ha⟩

end AllDone

/-- **Every run of scanners** succeeds, and when all are done, all rows are grouped. -/
theorem run_crew {evaluator : KeyEvaluator} (hev : evaluator.IsCoherent spec t) (spans : List Span)
    (schedule : List Nat) :
    ∃ c, (crew evaluator spans).run (fun w g => .ok (step spec.aggregates t w g)) schedule = .ok c ∧
      ((∀ w ∈ c.workers, w.IsDone) →
        Scanned spec t (Span.rowsAt spans) spans.length
          ((crew evaluator spans).history (fun w g => .ok (step spec.aggregates t w g)) deeds
            schedule) c.shared) := by
  obtain ⟨c, hrun, hholds, hlength⟩ := discipline.run schedule (holds_crew hev spans)
  rw [crew, List.length_map] at hlength
  exact ⟨c, hrun, fun hdone => AllDone.scanned ⟨hholds, hlength, hdone⟩⟩

/-- **Scanners come to an end**, whatever the schedule. -/
theorem exists_isDone {evaluator : KeyEvaluator} (hev : evaluator.IsCoherent spec t)
    (spans : List Span) (schedule : List Nat) :
    ∃ rest c, scanAll spec.aggregates t evaluator schedule spans .empty = .ok c ∧
      (crew evaluator spans).run (fun w g => .ok (step spec.aggregates t w g))
        (schedule ++ rest) = .ok c ∧ ∀ w ∈ c.workers, w.IsDone := by
  have hsucceeds : ∀ s, ∃ c,
      (crew evaluator spans).run (fun w g => .ok (step spec.aggregates t w g)) s = .ok c := by
    intro s
    obtain ⟨c, hrun, -⟩ := run_crew hev spans s
    exact ⟨c, hrun⟩
  have hcost : ∀ {w : Scanner} {g : SharedGroups} {w' : Scanner} {g' : SharedGroups},
      (Except.ok (step spec.aggregates t w g) : Except Error _) = .ok (w', g') →
        cost spec.aggregates w' ≤ cost spec.aggregates w - 1 := by
    intro w g w' g' hstep
    have hle := cost_of_step spec.aggregates t w g
    rw [Except.ok.inj hstep] at hle
    exact hle
  obtain ⟨rest, c, hall, hrun, hzero⟩ := Crew.exists_interleave hcost hsucceeds schedule
  exact ⟨rest, c, hall, hrun, fun w hw => isDone_of_cost (hzero w hw)⟩

/-- **Scanning ends**, whatever the schedule, and all rows are grouped. -/
theorem exists_scanAll {evaluator : KeyEvaluator} (hev : evaluator.IsCoherent spec t)
    (spans : List Span) (schedule : List Nat) :
    ∃ c h, scanAll spec.aggregates t evaluator schedule spans .empty = .ok c ∧
      Scanned spec t (Span.rowsAt spans) spans.length h c.shared := by
  obtain ⟨rest, c, hall, hrun, hdone⟩ := exists_isDone hev spans schedule
  obtain ⟨c', hrun', hscanned⟩ := run_crew hev spans (schedule ++ rest)
  rw [hrun] at hrun'
  cases hrun'
  exact ⟨c, _, hall, hscanned hdone⟩

/-- **What was scanned gathers the rows of all spans.** -/
theorem Scanned.gathers {g : SharedGroups} (hg : Scanned spec t rows workers h g) {s j : Nat}
    {k : Key} {a : Aggregate}
    (hs : g.dictionary.keys.toList[s]? = some k) (ha : spec.aggregates[j]? = some a) :
    ∃ xs tally, SharedGroups.load g j s = .ok tally ∧ a.function.Gathers xs tally ∧
      xs.Perm (a.inputs t (spec.members t ((List.range workers).flatMap rows) k.values)) := by
  obtain ⟨hload, hrows⟩ := hg.tallies s k hs j a ha
  refine ⟨_, _, hload, .fold _, ?_⟩
  -- the rows folded are those of all workers, in some order; rows without an input change nothing
  have hperm := (Crew.perm_ofWorker (Deed.rowAt s j) hg.known).filterMap (a.input? t)
  have hparts : ((List.range workers).flatMap fun i =>
      (Crew.ofWorker i h).filterMap (Deed.rowAt s j)) =
      (List.range workers).flatMap fun i => a.contributors t (spec.members t (rows i) k.values) :=
    List.flatMap_congr fun i hi => hrows i (List.mem_range.mp hi)
  rw [hparts] at hperm
  have hinputs : a.inputs t ((List.range workers).flatMap fun i =>
      a.contributors t (spec.members t (rows i) k.values)) =
      a.inputs t (spec.members t ((List.range workers).flatMap rows) k.values) := by
    rw [spec.members_flatMap, a.inputs_flatMap, a.inputs_flatMap]
    exact List.flatMap_congr fun i _ => a.inputs_contributors t _
  rw [← hinputs]
  exact hperm

/-- **A scanner on its own** folds the rows of a group in their order, whatever addition does. -/
theorem Scanned.load_eq {g : SharedGroups} (hg : Scanned spec t rows 1 h g) {s j : Nat} {k : Key}
    {a : Aggregate} (hs : g.dictionary.keys.toList[s]? = some k)
    (ha : spec.aggregates[j]? = some a) :
    SharedGroups.load g j s = .ok (a.tallyOf t (spec.members t (rows 0) k.values)) := by
  obtain ⟨hload, hrows⟩ := hg.tallies s k hs j a ha
  -- the only worker folded in the order of its rows, so no law of addition is called for
  have halone : ∀ e ∈ h, e.1 = 0 := fun e he => Nat.lt_one_iff.mp (hg.known e he)
  rw [hload, folded, ← Crew.filterMap_ofWorker (Deed.rowAt s j) halone, hrows 0 Nat.zero_lt_one,
    Aggregate.tallyOf, a.inputs_contributors]
  rfl

end Scanner
end Cohort
