import Mathlib.Data.List.Induction
import Cohort.Partition
/-
  The spans of a partition are CONSECUTIVE: they cut the rows from left to right, so reading them
  one after the other is reading all rows in order.

  `Consecutive a spans b` follows the list, every span starting where the one before it stopped.
  Spans that may be empty are included; `partition` makes none of those.
-/

namespace Cohort

/-- Spans that cut the rows from `a` up to but not including `b`, from left to right. -/
def Consecutive : (a : Nat) → List Span → (b : Nat) → Prop
  | a, [], b => a = b
  | a, s :: spans, b => s.start = a ∧ a ≤ s.stop ∧ Consecutive s.stop spans b

namespace Consecutive

theorem le : ∀ {a b : Nat} {spans : List Span}, Consecutive a spans b → a ≤ b
  | _, _, [], h => Nat.le_of_eq h
  | _, _, _ :: _, ⟨_, hle, h⟩ => Nat.le_trans hle h.le

theorem append_iff {a b : Nat} {l m : List Span} :
    Consecutive a (l ++ m) b ↔ ∃ c, Consecutive a l c ∧ Consecutive c m b := by
  induction l generalizing a with
  | nil =>
    constructor
    · exact fun h => ⟨a, rfl, h⟩
    · rintro ⟨c, rfl, h⟩
      exact h
  | cons s l ih =>
    constructor
    · rintro ⟨hstart, hle, h⟩
      obtain ⟨c, hl, hm⟩ := ih.mp h
      exact ⟨c, ⟨hstart, hle, hl⟩, hm⟩
    · rintro ⟨c, ⟨hstart, hle, hl⟩, hm⟩
      exact ⟨hstart, hle, ih.mpr ⟨c, hl, hm⟩⟩

theorem rows_append {a b c : Nat} (hab : a ≤ b) (hbc : b ≤ c) :
    (Span.mk a b).rows ++ (Span.mk b c).rows = (Span.mk a c).rows := by
  rw [Span.rows_append rfl hab hbc, Span.hull, Nat.min_eq_left hab, Nat.max_eq_right hbc]

/-- **Consecutive spans have the rows from one end to the other**, in order. -/
theorem flatMap_rows : ∀ {a b : Nat} {spans : List Span}, Consecutive a spans b →
    spans.flatMap Span.rows = (Span.mk a b).rows
  | a, b, [], h => by
    have hnone : (Span.mk a b).length = 0 := by
      rw [Span.length, show b = a from h.symm, Nat.sub_self]
    rw [Span.rows, hnone]
    rfl
  | a, b, ⟨start, stop⟩ :: spans, ⟨hstart, hle, h⟩ => by
    rw [List.flatMap_cons, h.flatMap_rows, show start = a from hstart]
    exact rows_append hle h.le

/-- A single span from one end to the other. -/
theorem eq_singleton {a b : Nat} {spans : List Span} (h : Consecutive a spans b)
    (hone : spans.length = 1) : spans = [⟨a, b⟩] := by
  obtain ⟨s, rfl⟩ := List.length_eq_one_iff.mp hone
  obtain ⟨start, stop⟩ := s
  obtain ⟨hstart, -, hstop⟩ := h
  rw [show start = a from hstart, show stop = b from hstop]

end Consecutive

/-! ## Spans by number -/

/-- A list is visited by its numbers. -/
theorem flatMap_range_getElem? {α β : Type} (l : List α) (F : α → List β) :
    (List.range l.length).flatMap (fun i => ((l[i]?).map F).getD []) = l.flatMap F := by
  rw [List.flatMap_def, List.flatMap_def]
  congr 1
  refine List.ext_getElem? fun i => ?_
  rw [List.getElem?_map, List.getElem?_map]
  by_cases hi : i < l.length
  · rw [List.getElem?_range hi, Option.map_some, List.getElem?_eq_getElem hi]
    rfl
  · rw [List.getElem?_eq_none (by rw [List.length_range]; omega), List.getElem?_eq_none (by omega)]
    rfl

namespace Span

/-- The rows of a span that is known by its number. -/
def rowsAt (spans : List Span) (i : Nat) : List Nat := ((spans[i]?).map rows).getD []

theorem flatMap_rowsAt (spans : List Span) :
    (List.range spans.length).flatMap (rowsAt spans) = spans.flatMap rows :=
  flatMap_range_getElem? spans rows

theorem rowsAt_of_getElem? {spans : List Span} {i : Nat} {s : Span} (h : spans[i]? = some s) :
    rowsAt spans i = s.rows := by
  rw [rowsAt, h]
  rfl

/-- What some worker has, by number, some span has. -/
theorem exists_rowsAt_iff (P : List Nat → Prop) {spans : List Span} :
    (∃ i < spans.length, P (rowsAt spans i)) ↔ ∃ s ∈ spans, P s.rows := by
  constructor
  · rintro ⟨i, hi, h⟩
    rw [rowsAt_of_getElem? (List.getElem?_eq_getElem hi)] at h
    exact ⟨_, List.getElem_mem hi, h⟩
  · rintro ⟨s, hs, h⟩
    obtain ⟨i, hi⟩ := List.mem_iff_getElem?.mp hs
    refine ⟨i, (List.getElem?_eq_some_iff.mp hi).1, ?_⟩
    rwa [rowsAt_of_getElem? hi]

end Span

/-! ## Partitions -/

/-- The spans of the first workers cut the rows before the next worker's share. -/
theorem consecutive_workerSpans (rows threads share : Nat) (n : Nat) (hn : n < threads) :
    Consecutive 0 ((List.range n).map (workerSpan rows threads share)) (n * share) := by
  induction n with
  | zero => exact (Nat.zero_mul share).symm
  | succ n ih =>
    rw [List.range_succ, List.map_append]
    refine Consecutive.append_iff.mpr ⟨n * share, ih (by omega), rfl, ?_, ?_⟩
    · show n * share ≤ if n + 1 = threads then rows else n * share + share
      rw [if_neg (by omega)]
      omega
    · show (if n + 1 = threads then rows else n * share + share) = (n + 1) * share
      rw [if_neg (by omega), Nat.succ_mul]

/-- **A partition cuts all rows from left to right**, one span per worker, none of them empty. -/
theorem partition_spec {rows threads : Nat} (hpos : 0 < threads) (hle : threads ≤ rows) :
    ∃ spans, partition rows threads = .ok spans ∧ spans.length = threads ∧
      Consecutive 0 spans rows ∧ ∀ s ∈ spans, s.start < s.stop := by
  have hshare : 0 < rows / threads := Nat.div_pos hle hpos
  refine ⟨(List.range threads).map (workerSpan rows threads (rows / threads)), ?_, ?_, ?_, ?_⟩
  · rw [partition, if_neg (by omega)]
    exact if_neg (by omega)
  · rw [List.length_map, List.length_range]
  · -- the last worker takes what the equal shares of the others leave over
    obtain ⟨n, rfl⟩ : ∃ n, threads = n + 1 := ⟨threads - 1, by omega⟩
    have htotal : n * (rows / (n + 1)) ≤ rows := by
      have hn : n * (rows / (n + 1)) ≤ (n + 1) * (rows / (n + 1)) :=
        Nat.mul_le_mul_right _ (Nat.le_succ n)
      exact Nat.le_trans hn (Nat.mul_div_le rows (n + 1))
    rw [List.range_succ, List.map_append]
    refine Consecutive.append_iff.mpr
      ⟨_, consecutive_workerSpans rows (n + 1) _ n (Nat.lt_succ_self n), rfl, ?_, ?_⟩
    · show n * (rows / (n + 1)) ≤ if n + 1 = n + 1 then rows else _
      rw [if_pos rfl]
      exact htotal
    · show (if n + 1 = n + 1 then rows else _) = rows
      rw [if_pos rfl]
  · intro s hs
    obtain ⟨i, hi, rfl⟩ := List.mem_map.mp hs
    have hi' : i < threads := List.mem_range.mp hi
    have hbefore : i * (rows / threads) < rows := by
      have hstep : (i + 1) * (rows / threads) ≤ threads * (rows / threads) :=
        Nat.mul_le_mul_right _ hi'
      have htotal := Nat.mul_div_le rows threads
      rw [Nat.succ_mul] at hstep
      omega
    show i * (rows / threads) <
      if i + 1 = threads then rows else i * (rows / threads) + rows / threads
    split
    · exact hbefore
    · omega

end Cohort
