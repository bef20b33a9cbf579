import Cohort.Proofs.Shared.Scanned
/-
  MEETINGS: at which slot a scanner finds the group of a row, and that it is the only one.

  1. **Meetings.**  A scanner comes by the slot of a row in one of two ways: the lookup by what its
     evaluator remembers finds it, or the second look, by the key, finds or adds it.  A row meets a
     slot even if it contributes to nothing, so meetings have a history of their own.

  2. **Stability.**  A slot that was met is found by the key from then on (`Meets.found`), whoever
     adds what; both lookups ask for hash and values, so both find it.

  3. **Whole tables.**  If the spans cut a table, in whatever order and some of them empty, then
     every row is in its group, at the one slot that its scanner has met, once (`ExactlyOnce`).
-/

namespace Cohort

namespace Scanner

/-- What a scanner has met: every row begun, each at the slot of its key. -/
structure Meets (spec : GroupingSpec) (t : Table) (rows : Nat → List Nat) (i : Nat)
    (ms : List Meeting) (w : Scanner) (g : SharedGroups) : Prop where
  evaluator : w.evaluator.IsCoherent spec t
  absent : ∀ row, w.absent = some row → w.evaluator.row = some row
  rows : ms.map (·.row) ++ (w.absent.toList ++ w.pending) = rows i
  found : ∀ m ∈ ms, g.find (spec.keyAt t m.row) = some m.slot

section Meets

variable {spec : GroupingSpec} {t : Table} {rows : Nat → List Nat} {i : Nat}
variable {ms : List Meeting} {w : Scanner} {g g' : SharedGroups}

theorem Meets.stable (hw : Meets spec t rows i ms w g) (hgrows : g.Grows spec g') :
    Meets spec t rows i ms w g' :=
  ⟨hw.evaluator, hw.absent, hw.rows, fun m hm =>
    hgrows _ _ (spec.isHashed_keyAt t m.row) (hw.found m hm)⟩

/-- The row in hand, or the next one, meets its slot. -/
theorem Meets.meet (hw : Meets spec t rows i ms w g) {row : Nat} {rest : List Nat}
    (hnext : w.absent.toList ++ w.pending = row :: rest) {ev : KeyEvaluator}
    (hev : ev.IsCoherent spec t) {slot : Nat} (hfind : g.find (spec.keyAt t row) = some slot)
    (visits : List Visit) :
    Meets spec t rows i (ms ++ [⟨row, slot⟩]) ⟨ev, rest, none, visits⟩ g := by
  have hrows := hw.rows
  rw [hnext] at hrows
  refine ⟨hev, nofun, ?_, List.forall_mem_append.mpr ⟨hw.found, ?_⟩⟩
  · rw [← hrows, List.map_append, List.append_assoc]
    rfl
  · exact List.forall_mem_singleton.mpr hfind

variable [FloatAddition]

/-- **Every step** keeps what was met.  Of what the crew has in common, only the dictionary takes
    part in it. -/
theorem meets_discipline :
    Crew.Discipline (fun w g => .ok (step spec.aggregates t w g)) (meetings spec.aggregates t)
      (fun _ g => g.dictionary.IsIndex spec) (Meets spec t rows) (SharedDictionary.Grows spec) := by
  refine ⟨fun {h g i w} hg hw => ?_, fun hw hgrows => hw.stable hgrows⟩
  have hturn := turn_step g hw.evaluator hw.absent
  generalize meetings spec.aggregates t w g = met at hturn ⊢
  generalize step spec.aggregates t w g = next at hturn ⊢
  obtain ⟨w', g'⟩ := next
  refine ⟨w', g', rfl, ?_⟩
  cases hturn with
  | fold hvisits =>
    rw [List.append_nil]
    exact ⟨hg, ⟨hw.evaluator, hw.absent, hw.rows, hw.found⟩, SharedDictionary.grows_modify g _ _⟩
  | meet hvisits hnext hev hrow hfind => exact ⟨hg, hw.meet hnext hev hfind _, .refl _⟩
  | @add row hvisits habsent hnew =>
    have hnext : w.absent.toList ++ w.pending = row :: w.pending := by rw [habsent]; rfl
    have hhash := spec.isHashed_keyAt t row
    have hgrows := SharedDictionary.grows_insert hg hhash hnew (newBuckets spec.aggregates)
    have hself := SharedDictionary.find_insert_self hg hhash hnew (newBuckets spec.aggregates)
    exact ⟨hg.insert hhash hnew, (hw.stable hgrows).meet hnext hw.evaluator hself _, hgrows⟩
  | @take row rest ev hvisits habsent hpending hev hrow hnew =>
    -- nothing is met yet: the row is in hand
    rw [List.append_nil]
    refine ⟨hg, ⟨hev, fun row' h' => ?_, ?_, hw.found⟩, .refl _⟩
    · cases h'
      exact hrow
    · rw [← hw.rows, habsent, hpending]
      rfl
  | rest hvisits habsent hpending =>
    rw [List.append_nil]
    exact ⟨hg, hw, .refl _⟩

end Meets

/-! ## Whole tables -/

section Whole

variable [FloatAddition]

/-- Who met what, along a schedule. -/
def metBy (spec : GroupingSpec) (t : Table) (spans : List Span) (schedule : List Nat) :
    List (Nat × Meeting) :=
  (crew (.create spec.keys spec.hashValue) spans).history
    (fun w g => .ok (step spec.aggregates t w g)) (meetings spec.aggregates t) schedule

/-- Who folded what, along a schedule. -/
def doneBy (spec : GroupingSpec) (t : Table) (spans : List Span) (schedule : List Nat) : History :=
  (crew (.create spec.keys spec.hashValue) spans).history
    (fun w g => .ok (step spec.aggregates t w g)) deeds schedule

/-- Shared groups into which every row of a table was put exactly once, by one scanner per span. -/
structure ExactlyOnce (spec : GroupingSpec) (t : Table) (spans : List Span)
    (met : List (Nat × Meeting)) (done : History) (g : SharedGroups) : Prop where
  /-- No two entries have the same key values. -/
  distinct : g.dictionary.keys.toList.Pairwise fun a b => a.values ≠ b.values
  /-- There is an entry for the key values of every row of the table, and no other. -/
  covered : ∀ values, (∃ k ∈ g.dictionary.keys.toList, k.values = values) ↔
    ∃ row < t.rowCount, spec.valuesAt t row = values
  /-- A scanner has met its rows one after the other, -/
  rows : ∀ i < spans.length, (Crew.ofWorker i met).map (·.row) = Span.rowsAt spans i
  /-- and each at the slot of its key, -/
  slots : ∀ e ∈ met, g.find (spec.keyAt t e.2.row) = some e.2.slot
  /-- which is where it has folded it. -/
  used : ∀ e ∈ done, g.find (spec.keyAt t e.2.row) = some e.2.slot
  /-- A tally is the fold of the rows that were folded into its bucket, in the order of the steps:
      the rows of the group that contribute, each once, those of one scanner in their order. -/
  tallies : ∀ s k, g.dictionary.keys.toList[s]? = some k → ∀ j a, spec.aggregates[j]? = some a →
    SharedGroups.load g j s = .ok (a.tallyOf t (folded done s j)) ∧
    (folded done s j).Perm
      (a.contributors t (spec.members t (List.range t.rowCount) k.values)) ∧
    ∀ i < spans.length, (Crew.ofWorker i done).filterMap (Deed.rowAt s j) =
      a.contributors t (spec.members t (Span.rowsAt spans i) k.values)

variable {spec : GroupingSpec} {t : Table} {spans : List Span}

/-- What scanners that are done have met. -/
theorem met_of_isDone {schedule : List Nat} {c : Crew Scanner SharedGroups}
    (hrun : (crew (.create spec.keys spec.hashValue) spans).run
      (fun w g => .ok (step spec.aggregates t w g)) schedule = .ok c)
    (hdone : ∀ w ∈ c.workers, w.IsDone) :
    (∀ i < spans.length,
      (Crew.ofWorker i (metBy spec t spans schedule)).map (·.row) = Span.rowsAt spans i) ∧
      ∀ e ∈ metBy spec t spans schedule,
        c.shared.find (spec.keyAt t e.2.row) = some e.2.slot := by
  have hstart : Crew.Holds (fun _ g => g.dictionary.IsIndex spec)
      (Meets spec t (Span.rowsAt spans)) []
      (crew (.create spec.keys spec.hashValue) spans) := by
    refine ⟨Dictionary.isIndex_empty spec, fun i w hi => ?_⟩
    obtain ⟨span, hspan, rfl⟩ : ∃ span, spans[i]? = some span ∧
        ofSpan (.create spec.keys spec.hashValue) span = w := by
      rw [crew, List.getElem?_map] at hi
      exact Option.map_eq_some_iff.mp hi
    refine ⟨KeyEvaluator.isCoherent_create spec t, fun row hrow => ?_, ?_, List.forall_mem_nil _⟩
    · cases hrow
    · rw [Span.rowsAt_of_getElem? hspan]
      rfl
  obtain ⟨c', hrun', hholds, hlength⟩ := meets_discipline.run schedule hstart
  rw [hrun] at hrun'
  cases hrun'
  rw [crew, List.length_map] at hlength
  have hmeets : ∀ i < spans.length, ∃ w ∈ c.workers,
      Meets spec t (Span.rowsAt spans) i (Crew.ofWorker i (metBy spec t spans schedule)) w
        c.shared := by
    intro i hi
    have hlt : i < c.workers.length := hlength ▸ hi
    exact ⟨c.workers[i], List.getElem_mem hlt, hholds.own i _ (List.getElem?_eq_getElem hlt)⟩
  constructor
  · intro i hi
    obtain ⟨w, hw, hm⟩ := hmeets i hi
    obtain ⟨-, habsent, hpending⟩ := hdone w hw
    rw [← hm.rows, habsent, hpending]
    exact (List.append_nil _).symm
  · intro e he
    have hlt : e.1 < spans.length := by
      have hmem := Crew.lt_of_mem_history he
      rwa [crew, List.length_map] at hmem
    obtain ⟨w, -, hm⟩ := hmeets e.1 hlt
    exact hm.found e.2 (Crew.mem_ofWorker.mpr he)

/-- **Scanners that are done have put every row of the table into its group**, once. -/
theorem Scanned.exactlyOnce {met : List (Nat × Meeting)} {done : History} {g : SharedGroups}
    (hspans : (spans.flatMap Span.rows).Perm (List.range t.rowCount))
    (hrows : ∀ i < spans.length, (Crew.ofWorker i met).map (·.row) = Span.rowsAt spans i)
    (hslots : ∀ e ∈ met, g.find (spec.keyAt t e.2.row) = some e.2.slot)
    (hg : Scanned spec t (Span.rowsAt spans) spans.length done g) :
    ExactlyOnce spec t spans met done g := by
  refine ⟨hg.distinct, fun values => ?_, hrows, hslots, hg.slots, fun s k hs j a ha => ?_⟩
  · rw [hg.covered, Span.exists_rowsAt_iff fun rows => ∃ row ∈ rows, spec.valuesAt t row = values]
    constructor
    · rintro ⟨span, hspan, row, hrow, hv⟩
      have hmem := hspans.mem_iff.mp (List.mem_flatMap.mpr ⟨span, hspan, hrow⟩)
      exact ⟨row, List.mem_range.mp hmem, hv⟩
    · rintro ⟨row, hrow, hv⟩
      obtain ⟨span, hspan, hmem⟩ :=
        List.mem_flatMap.mp (hspans.mem_iff.mpr (List.mem_range.mpr hrow))
      exact ⟨span, hspan, row, hmem, hv⟩
  · obtain ⟨hload, hown⟩ := hg.tallies s k hs j a ha
    refine ⟨hload, ?_, hown⟩
    -- what all have folded is what each has folded, and that is what each has of the group
    have hperm := Crew.perm_ofWorker (Deed.rowAt s j) hg.known
    rw [List.flatMap_congr fun i hi => hown i (List.mem_range.mp hi)] at hperm
    refine hperm.trans ?_
    have hparts : ((List.range spans.length).flatMap fun i =>
        a.contributors t (spec.members t (Span.rowsAt spans i) k.values)) =
        a.contributors t (spec.members t (spans.flatMap Span.rows) k.values) := by
      rw [← Span.flatMap_rowsAt, spec.members_flatMap, Aggregate.contributors,
        List.filter_flatMap]
      rfl
    rw [hparts]
    exact (hspans.filter _).filter _

end Whole
end Scanner

/-- **Grouping straight into shared groups is correct under every interleaving.**

    Let the spans cut a table, one for each scanner, in whatever order and some of them empty.  With
    every schedule the scanners can be brought to an end, and every schedule runs without an error.
    Whenever all scanners are done: there is one entry per distinct tuple of key values of the table;
    every row has met the entry of its key and was folded there, whichever scanner had added it; and
    every tally is the fold of the rows of its group that contribute, each once, in the order of the
    steps, which keeps the order of every scanner. -/
theorem scan_exactly_once [FloatAddition] {spec : GroupingSpec} {t : Table} {spans : List Span}
    (hspans : (spans.flatMap Span.rows).Perm (List.range t.rowCount)) (schedule : List Nat) :
    let start := Scanner.crew (.create spec.keys spec.hashValue) spans
    let step := fun w g => Except.ok (Scanner.step spec.aggregates t w g)
    (∃ rest c, start.run step (schedule ++ rest) = .ok c ∧ ∀ w ∈ c.workers, w.IsDone) ∧
    ∃ c, start.run step schedule = .ok c ∧
      ((∀ w ∈ c.workers, w.IsDone) →
        Scanner.ExactlyOnce spec t spans (Scanner.metBy spec t spans schedule)
          (Scanner.doneBy spec t spans schedule) c.shared) := by
  intro start step
  have hev := KeyEvaluator.isCoherent_create spec t
  constructor
  · obtain ⟨rest, c, -, hrun, hdone⟩ := Scanner.exists_isDone hev spans schedule
    exact ⟨rest, c, hrun, hdone⟩
  · obtain ⟨c, hrun, hscanned⟩ := Scanner.run_crew hev spans schedule
    refine ⟨c, hrun, fun hdone => ?_⟩
    obtain ⟨hrows, hslots⟩ := Scanner.met_of_isDone hrun hdone
    exact Scanner.Scanned.exactlyOnce hspans hrows hslots (hscanned hdone)

/-- Two scanners, the first of which has the last row; both begin before either adds its group. -/
theorem scan_exactly_once_sample :
    let spans : List Span := [⟨2, 3⟩, ⟨0, 2⟩]
    let start := Scanner.crew (.create GroupingSpec.sample.keys GroupingSpec.sample.hashValue) spans
    let step := fun w g => Except.ok (Scanner.step GroupingSpec.sample.aggregates .sample w g)
    (spans.flatMap Span.rows).Perm (List.range Table.sample.rowCount) ∧
      ∃ rest c, start.run step ([0, 1, 1, 0, 0, 1] ++ rest) = .ok c ∧
        (∀ w ∈ c.workers, w.IsDone) ∧
        Scanner.ExactlyOnce .sample .sample spans
          (Scanner.metBy .sample .sample spans ([0, 1, 1, 0, 0, 1] ++ rest))
          (Scanner.doneBy .sample .sample spans ([0, 1, 1, 0, 0, 1] ++ rest)) c.shared := by
  intro spans start step
  have hspans : (spans.flatMap Span.rows).Perm (List.range Table.sample.rowCount) := by decide
  refine ⟨hspans, ?_⟩
  obtain ⟨⟨rest, c, hrun, hdone⟩, -⟩ :=
    @scan_exactly_once _ .sample .sample spans hspans [0, 1, 1, 0, 0, 1]
  obtain ⟨-, c', hrun', honce⟩ :=
    @scan_exactly_once _ .sample .sample spans hspans ([0, 1, 1, 0, 0, 1] ++ rest)
  rw [hrun] at hrun'
  cases hrun'
  exact ⟨rest, c, hrun, hdone, honce hdone⟩

end Cohort
