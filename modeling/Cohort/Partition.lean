import Cohort.Block
/-
  Spans of rows, and how a table is cut into one span per worker.

  Every worker gets the same share, and the LAST one also what is left over.  A share of no rows is
  an error, so no worker is ever idle.
-/

namespace Cohort

/-- The rows from `start` up to but not including `stop`. -/
structure Span where
  start : Nat
  stop : Nat
deriving DecidableEq

namespace Span

/-- How many rows a span has. -/
def length (s : Span) : Nat := s.stop - s.start

/-- The rows of a span, in order. -/
def rows (s : Span) : List Nat := List.range' s.start s.length

/-- The least span that includes both. -/
def hull (a b : Span) : Span := ⟨min a.start b.start, max a.stop b.stop⟩

theorem mem_rows {s : Span} {row : Nat} : row ∈ s.rows ↔ s.start ≤ row ∧ row < s.stop := by
  rw [rows, List.mem_range'_1, length]
  omega

theorem length_rows (s : Span) : s.rows.length = s.length := List.length_range'

/-- Two spans of which the second starts where the first stops have the rows of their hull. -/
theorem rows_append {a b : Span} (hab : a.stop = b.start) (ha : a.start ≤ a.stop)
    (hb : b.start ≤ b.stop) : a.rows ++ b.rows = (a.hull b).rows := by
  have hmin : min a.start b.start = a.start := by omega
  have hmax : max a.stop b.stop = b.stop := by omega
  have hlen : b.stop - a.start = (a.stop - a.start) + (b.stop - b.start) := by omega
  have hstart : b.start = a.start + 1 * (a.stop - a.start) := by omega
  simp only [rows, length, hull]
  rw [hmin, hmax, hlen, ← List.range'_append, ← hstart]

end Span

/-- Where worker `i` of `threads` starts and stops, `share` being the rows for each of them. -/
def workerSpan (rows threads share i : Nat) : Span :=
  ⟨i * share, if i + 1 = threads then rows else i * share + share⟩

/-- One span per worker. -/
def partition (rows threads : Nat) : Except Error (List Span) :=
  if threads = 0 then .error .noThreads
  else
    let share := rows / threads
    if share = 0 then .error (.idleThreads rows threads)
    else .ok ((List.range threads).map (workerSpan rows threads share))

/-- `partition` for numbers that a caller names: the spans need room. -/
def tryPartition (rows threads : Nat) : Except Error (List Span) := do
  if threads ≠ 0 ∧ rows / threads ≠ 0 then Block.demand [.ofSpans threads]
  partition rows threads

example : partition 7 3 = .ok [⟨0, 2⟩, ⟨2, 4⟩, ⟨4, 7⟩] := by rfl
example : partition 2 3 = .error (.idleThreads 2 3) := by rfl

end Cohort
