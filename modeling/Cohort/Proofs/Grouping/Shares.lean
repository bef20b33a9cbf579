import Mathlib.Logic.ExistsUnique
import Cohort.Proofs.Grouping.Coverage
/-
  The SHARES of the workers: every row has one worker, and no number on the way leaves a word.

  1. **Cover.**  `ExactCover` says of spans that they cut the rows from left to right, so every row
     is in one of them and in no other, and how long each is: the common share, and for the last
     worker what is left over besides.

  2. **Words.**  Row numbers are 64-bit words in memory.  `workerWords?` computes a span in words
     and gives nothing as soon as a product, a sum or a difference does not fit; it always gives the
     span.  The product of a worker's number and the share is where that could fail, but it is at
     most the number of rows.

  3. **Refusals.**  Spans are refused for want of threads, for idle threads, and where their list is
     too long for a block of memory.  An engine has threads, and its table is in memory, so it fails
     for idle threads alone.
-/

namespace Cohort

/-! ## Every row once -/

/-- **A row between the ends is in exactly one** of consecutive spans. -/
theorem Consecutive.existsUnique {a b row : Nat} {spans : List Span} (h : Consecutive a spans b)
    (ha : a ≤ row) (hb : row < b) : ∃! i : Nat, ∃ s, spans[i]? = some s ∧ row ∈ s.rows := by
  induction spans generalizing a with
  | nil =>
    have hab : a = b := h
    omega
  | cons s spans ih =>
    obtain ⟨hstart, hle, hrest⟩ := h
    by_cases hrow : row < s.stop
    · -- the row is in the first span, and all later ones start where that one stops
      refine ⟨0, ⟨s, rfl, Span.mem_rows.mpr ⟨by omega, hrow⟩⟩, ?_⟩
      rintro i ⟨s', hs', hmem⟩
      cases i with
      | zero => rfl
      | succ i =>
        have hlater : row ∈ spans.flatMap Span.rows :=
          List.mem_flatMap.mpr ⟨s', List.mem_of_getElem? hs', hmem⟩
        rw [hrest.flatMap_rows, Span.mem_rows] at hlater
        exact absurd hlater.1 (Nat.not_le.mpr hrow)
    · obtain ⟨i, ⟨s', hs', hmem⟩, hunique⟩ := ih hrest (Nat.not_lt.mp hrow)
      refine ⟨i + 1, ⟨s', hs', hmem⟩, ?_⟩
      rintro j ⟨s'', hs'', hmem'⟩
      cases j with
      | zero =>
        cases hs''
        exact absurd (Span.mem_rows.mp hmem').2 hrow
      | succ j => exact congrArg (· + 1) (hunique j ⟨s'', hs'', hmem'⟩)

/-- Spans that give every row to one worker, and to every worker its share. -/
structure ExactCover (rows threads : Nat) (spans : List Span) : Prop where
  length : spans.length = threads
  busy : ∀ s ∈ spans, s.start < s.stop
  /-- The first span starts with row 0, every other where the one before it stops, and the last
      stops after the last row. -/
  cut : Consecutive 0 spans rows
  once : ∀ row < rows, ∃! i : Nat, ∃ s, spans[i]? = some s ∧ row ∈ s.rows
  share : ∀ i s, spans[i]? = some s → i + 1 < threads → s.length = rows / threads
  rest : ∀ i s, spans[i]? = some s → i + 1 = threads → s.length = rows / threads + rows % threads

/-- The rows before the share of a worker, and with it, are rows of the table. -/
theorem mul_share_le {rows threads i : Nat} (hi : i < threads) :
    i * (rows / threads) + rows / threads ≤ rows := by
  have hstep : (i + 1) * (rows / threads) ≤ threads * (rows / threads) := Nat.mul_le_mul_right _ hi
  rw [Nat.succ_mul] at hstep
  exact Nat.le_trans hstep (Nat.mul_div_le rows threads)

/-- **A partition is an exact cover.** -/
theorem partition_exact {rows threads : Nat} (hpos : 0 < threads) (hle : threads ≤ rows) :
    ∃ spans, partition rows threads = .ok spans ∧ ExactCover rows threads spans ∧
      ∀ i s, spans[i]? = some s → i < threads ∧ s = workerSpan rows threads (rows / threads) i := by
  obtain ⟨spans, hspans, hlength, hcut, hbusy⟩ := partition_spec hpos hle
  have hshare : rows / threads ≠ 0 := Nat.pos_iff_ne_zero.mp (Nat.div_pos hle hpos)
  have hlist : spans = (List.range threads).map (workerSpan rows threads (rows / threads)) := by
    rw [partition, if_neg (Nat.pos_iff_ne_zero.mp hpos)] at hspans
    dsimp only at hspans
    rw [if_neg hshare] at hspans
    cases hspans
    rfl
  have hat : ∀ i s, spans[i]? = some s →
      i < threads ∧ s = workerSpan rows threads (rows / threads) i := by
    intro i s hs
    obtain ⟨hi, -⟩ := List.getElem?_eq_some_iff.mp hs
    rw [hlength] at hi
    rw [hlist, List.getElem?_map, List.getElem?_range hi] at hs
    exact ⟨hi, (Option.some.inj hs).symm⟩
  refine ⟨spans, hspans, ⟨hlength, hbusy, hcut, fun row hrow => ?_, fun i s hs hi => ?_,
    fun i s hs hi => ?_⟩, hat⟩
  · exact hcut.existsUnique (Nat.zero_le row) hrow
  · rw [(hat i s hs).2, Span.length, workerSpan, if_neg (Nat.ne_of_lt hi)]
    exact Nat.add_sub_cancel_left _ _
  · -- the last worker starts after the shares of all others
    rw [(hat i s hs).2, Span.length, workerSpan, if_pos hi]
    have htotal : (i + 1) * (rows / threads) = i * (rows / threads) + rows / threads :=
      Nat.succ_mul _ _
    rw [hi] at htotal
    have hdivision := Nat.div_add_mod rows threads
    show rows - i * (rows / threads) = _
    generalize rows / threads = share at htotal hdivision ⊢
    omega

/-! ## In words -/

namespace Word

/-- The product of two words, if it is a word. -/
def mul? (a b : UInt64) : Option UInt64 :=
  if a.toNat * b.toNat < UInt64.size then some (a * b) else none

/-- The sum of two words, if it is a word. -/
def add? (a b : UInt64) : Option UInt64 :=
  if a.toNat + b.toNat < UInt64.size then some (a + b) else none

/-- The difference of two words, if it is not below zero. -/
def sub? (a b : UInt64) : Option UInt64 := if b ≤ a then some (a - b) else none

theorem mul?_of_lt {a b : UInt64} (h : a.toNat * b.toNat < UInt64.size) :
    ∃ c, mul? a b = some c ∧ c.toNat = a.toNat * b.toNat :=
  ⟨a * b, if_pos h, by rw [UInt64.toNat_mul, Nat.mod_eq_of_lt h]⟩

theorem add?_of_lt {a b : UInt64} (h : a.toNat + b.toNat < UInt64.size) :
    ∃ c, add? a b = some c ∧ c.toNat = a.toNat + b.toNat :=
  ⟨a + b, if_pos h, by rw [UInt64.toNat_add, Nat.mod_eq_of_lt h]⟩

theorem sub?_of_le {a b : UInt64} (h : b ≤ a) :
    ∃ c, sub? a b = some c ∧ c.toNat = a.toNat - b.toNat :=
  ⟨a - b, if_pos h, UInt64.toNat_sub_of_le _ _ h⟩

end Word

/-- The span of a worker in words: where it starts and where it stops, unless a number on the way
    is no word. -/
def workerWords? (rows threads share number : UInt64) : Option (UInt64 × UInt64) := do
  let start ← Word.mul? number share
  let last ← Word.sub? threads 1
  if number = last then return (start, rows)
  let stop ← Word.add? start share
  return (start, stop)

/-- The span between two words. -/
def Span.ofWords (w : UInt64 × UInt64) : Span := ⟨w.1.toNat, w.2.toNat⟩

/-- **Every number on the way to a worker's span is a word**, and the span is the one meant. -/
theorem workerWords?_eq {rows threads : UInt64} {i : Nat} (hi : i < threads.toNat) :
    ∃ w, workerWords? rows threads (rows / threads) (.ofNat i) = some w ∧
      Span.ofWords w =
        workerSpan rows.toNat threads.toNat (rows.toNat / threads.toNat) i := by
  have hnumber : (UInt64.ofNat i).toNat = i :=
    UInt64.toNat_ofNat_of_lt' (Nat.lt_trans hi threads.toNat_lt)
  have hshare : (rows / threads).toNat = rows.toNat / threads.toNat := UInt64.toNat_div _ _
  have hle : i * (rows.toNat / threads.toNat) + rows.toNat / threads.toNat ≤ rows.toNat :=
    mul_share_le hi
  have hrows : rows.toNat < UInt64.size := rows.toNat_lt
  obtain ⟨start, hstart, hstart'⟩ := Word.mul?_of_lt (a := .ofNat i) (b := rows / threads)
    (by rw [hnumber, hshare]; omega)
  rw [hnumber, hshare] at hstart'
  have hone : (1 : UInt64) ≤ threads :=
    UInt64.le_iff_toNat_le.mpr (Nat.lt_of_le_of_lt (Nat.zero_le i) hi)
  obtain ⟨last, hlast, hlast'⟩ := Word.sub?_of_le hone
  have hisLast : UInt64.ofNat i = last ↔ i + 1 = threads.toNat := by
    rw [← UInt64.toNat_inj, hnumber, hlast']
    show i = threads.toNat - 1 ↔ _
    omega
  rw [workerWords?, hstart, hlast, workerSpan]
  by_cases h : i + 1 = threads.toNat
  · refine ⟨(start, rows), ?_, ?_⟩
    · show (if UInt64.ofNat i = last then _ else _) = _
      rw [if_pos (hisLast.mpr h)]
      rfl
    · rw [if_pos h, Span.ofWords, hstart']
  · obtain ⟨stop, hstop, hstop'⟩ := Word.add?_of_lt (a := start) (b := rows / threads)
      (by rw [hstart', hshare]; omega)
    refine ⟨(start, stop), ?_, ?_⟩
    · show (if UInt64.ofNat i = last then _ else _) = _
      rw [if_neg fun heq => h (hisLast.mp heq), hstop]
      rfl
    · rw [if_neg h, Span.ofWords, hstart', hstop', hstart', hshare]

/-! ## Refusals -/

/-- A partition is refused without threads and where some would be idle. -/
theorem partition_eq_error_iff {rows threads : Nat} :
    (∃ err, partition rows threads = .error err) ↔ threads = 0 ∨ rows < threads := by
  constructor
  · rintro ⟨err, herr⟩
    by_contra hnot
    rw [not_or, Nat.not_lt] at hnot
    obtain ⟨spans, hspans, -⟩ := partition_spec (Nat.pos_of_ne_zero hnot.1) hnot.2
    rw [hspans] at herr
    cases herr
  · rintro (rfl | hlt)
    · exact ⟨.noThreads, rfl⟩
    · by_cases hzero : threads = 0
      · exact ⟨.noThreads, if_pos hzero⟩
      · refine ⟨.idleThreads rows threads, ?_⟩
        rw [partition, if_neg hzero]
        exact if_pos (Nat.div_eq_of_lt hlt)

/-- The most spans that fit into a block. -/
theorem bytes_ofSpans_le_iff (n : Nat) :
    (Block.ofSpans n).bytes ≤ Block.addressable ↔ n < 2 ^ 59 := by
  have haddressable : Block.addressable = 2 ^ 63 - 8 := rfl
  show n * 16 ≤ Block.addressable ↔ n < 2 ^ 59
  omega

/-- Room is asked for where there is something to hand out, and for nothing else. -/
theorem tryPartition_eq (rows threads : Nat) :
    tryPartition rows threads =
      if threads ≠ 0 ∧ threads ≤ rows ∧ 2 ^ 59 ≤ threads then .error (.noRoom threads 16)
      else partition rows threads := by
  have hshare : (threads ≠ 0 ∧ rows / threads ≠ 0) ↔ threads ≠ 0 ∧ threads ≤ rows := by
    refine and_congr_right fun hne => ?_
    rw [← Nat.pos_iff_ne_zero, Nat.div_pos_iff]
    exact ⟨fun h => h.2, fun h => ⟨Nat.pos_of_ne_zero hne, h⟩⟩
  have hroom := bytes_ofSpans_le_iff threads
  rw [tryPartition]
  by_cases hsome : threads ≠ 0 ∧ threads ≤ rows
  · rw [if_pos (hshare.mpr hsome), Block.demand]
    by_cases hlt : threads < 2 ^ 59
    · rw [if_pos (hroom.mpr hlt), if_neg fun h => absurd hlt (Nat.not_lt.mpr h.2.2)]
      rfl
    · rw [if_neg fun h => hlt (hroom.mp h),
        if_pos ⟨hsome.1, hsome.2, Nat.not_lt.mp hlt⟩]
      rfl
  · rw [if_neg fun h => hsome (hshare.mp h), if_neg fun h => hsome ⟨h.1, h.2.1⟩]

/-- An engine fails on a table with rows exactly if some thread would be idle. -/
theorem Engine.group_eq_error_iff [FloatAddition] (e : Engine) {t : Table} (hrows : t.rowCount ≠ 0)
    (schedule : List Nat) :
    (∃ err, e.group t schedule = .error err) ↔ t.rowCount < e.config.threads := by
  constructor
  · rintro ⟨err, herr⟩
    by_contra hle
    obtain ⟨r, -, hr, -⟩ := e.exists_group_covers (Nat.not_lt.mp hle) schedule
    rw [hr] at herr
    cases herr
  · intro hlt
    cases hr : e.group t schedule with
    | error err => exact ⟨err, rfl⟩
    | ok r => exact absurd (threads_le_of_group_ok hr hrows) (Nat.not_le.mpr hlt)

/-- **A partition covers the rows exactly**, for all numbers of rows and threads that are words.

    It is refused without threads, if some thread would be idle, or if there are 2^59 threads, whose
    spans are more than a block of memory can hold.  Otherwise there is one span per thread, none of
    them empty; they cut the rows from left to right, so every row is in exactly one; and each has
    the common share, the last what is left over besides.  Computed in words, no product, sum or
    difference on the way overflows, be there room for the spans or not.  Hence an engine, whatever
    its strategy and storage mode, fails on a table with rows exactly if it has more threads than
    there are rows. -/
theorem partition_covers_exactly (rows threads : UInt64) :
    ((∃ err, tryPartition rows.toNat threads.toNat = .error err) ↔
      threads = 0 ∨ rows < threads ∨ 2 ^ 59 ≤ threads.toNat) ∧
    (threads ≠ 0 → threads ≤ rows → ∃ spans,
      ExactCover rows.toNat threads.toNat spans ∧
      (threads.toNat < 2 ^ 59 → tryPartition rows.toNat threads.toNat = .ok spans) ∧
      ∀ i s, spans[i]? = some s → ∃ w,
        workerWords? rows threads (rows / threads) (.ofNat i) = some w ∧ Span.ofWords w = s) ∧
    ∀ [FloatAddition] (e : Engine) (t : Table) (schedule : List Nat), t.rowCount ≠ 0 →
      ((∃ err, e.group t schedule = .error err) ↔ t.rowCount < e.config.threads) := by
  have hzero : threads = 0 ↔ threads.toNat = 0 := UInt64.toNat_inj.symm
  have hlt : rows < threads ↔ rows.toNat < threads.toNat := UInt64.lt_iff_toNat_lt
  have hle : threads ≤ rows ↔ threads.toNat ≤ rows.toNat := UInt64.le_iff_toNat_le
  refine ⟨?_, fun hne hadmissible => ?_,
    fun e t schedule hrows => e.group_eq_error_iff hrows schedule⟩
  · rw [tryPartition_eq, hzero, hlt]
    split
    case isTrue hmany => exact ⟨fun _ => .inr (.inr hmany.2.2), fun _ => ⟨_, rfl⟩⟩
    case isFalse hfew =>
      rw [partition_eq_error_iff]
      omega
  · rw [hle] at hadmissible
    have hpos : 0 < threads.toNat := Nat.pos_of_ne_zero fun h => hne (hzero.mpr h)
    obtain ⟨spans, hspans, hcover, hat⟩ := partition_exact hpos hadmissible
    refine ⟨spans, hcover, fun hroom => ?_, fun i s hs => ?_⟩
    · rw [tryPartition_eq, if_neg fun h => absurd hroom (Nat.not_lt.mpr h.2.2)]
      exact hspans
    · obtain ⟨hi, rfl⟩ := hat i s hs
      exact workerWords?_eq hi

/-- Seven rows for three threads, and an engine with as many threads as its table has rows. -/
theorem partition_covers_exactly_sample :
    (3 : UInt64) ≠ 0 ∧ (3 : UInt64) ≤ 7 ∧
    (∃ spans, ExactCover 7 3 spans ∧ tryPartition 7 3 = .ok spans ∧
      spans = [⟨0, 2⟩, ⟨2, 4⟩, ⟨4, 7⟩]) ∧
    let e : Engine := ⟨⟨3, .globalMerge, .list⟩, .sample, by decide, Or.inl (by decide)⟩
    Table.sample.rowCount ≠ 0 ∧ ¬∃ err, e.group .sample [2, 0] = .error err := by
  obtain ⟨-, hcovers, hengine⟩ := partition_covers_exactly 7 3
  have hrows : Table.sample.rowCount ≠ 0 := by decide
  have hne : (3 : UInt64) ≠ 0 := by decide
  have hle : (3 : UInt64) ≤ 7 := by decide
  obtain ⟨spans, hcover, hspans, -⟩ := hcovers hne hle
  have hroom : UInt64.toNat 3 < 2 ^ 59 := by decide
  have hcut : tryPartition 7 3 = .ok [⟨0, 2⟩, ⟨2, 4⟩, ⟨4, 7⟩] := by rfl
  refine ⟨hne, hle, ⟨spans, hcover, hspans hroom, ?_⟩, hrows, fun herr => ?_⟩
  · cases (hspans hroom).symm.trans hcut
    rfl
  · exact absurd ((hengine _ _ _ hrows).mp herr) (by decide)

/-- Without regard to memory it would be refused for want of threads or rows only: but 2^59 spans
    take 2^63 bytes. -/
theorem partition_refused_for_want_of_room :
    ¬∀ rows threads : UInt64, (∃ err, tryPartition rows.toNat threads.toNat = .error err) ↔
      threads = 0 ∨ rows < threads := by
  intro hall
  have hword : (UInt64.ofNat (2 ^ 59)).toNat = 2 ^ 59 := by decide
  have hmany : tryPartition (2 ^ 59) (2 ^ 59) = .error (.noRoom (2 ^ 59) 16) := by
    rw [tryPartition_eq, if_pos (by decide)]
  rw [← hword] at hmany
  exact absurd ((hall (.ofNat (2 ^ 59)) (.ofNat (2 ^ 59))).mp ⟨_, hmany⟩) (by decide)

end Cohort
