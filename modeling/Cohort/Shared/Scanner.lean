import Cohort.Partition
import Cohort.Shared.Crew
import Cohort.Shared.Groups
/-
  Grouping rows straight into the shared groups.

  For every row a scanner looks the group up by what its evaluator remembers.  If the group is not
  there it asks again, by the key, to have it added; that is a SECOND step, and another worker may
  have added the group in between, in which case both get the same one.  Then it updates one bucket
  per step for every aggregate that the row contributes to.
-/

namespace Cohort

/-- A worker that groups rows into shared groups. -/
structure Scanner where
  evaluator : KeyEvaluator
  /-- The rows not looked at yet. -/
  pending : List Nat
  /-- The row in hand, if its group was not found. -/
  absent : Option Nat
  /-- What is left to do for the row in hand. -/
  visits : List Visit

namespace Scanner

/-- The scanner of a span. -/
def ofSpan (evaluator : KeyEvaluator) (s : Span) : Scanner := ⟨evaluator, s.rows, none, []⟩

/-- The buckets of a new group. -/
def newBuckets (aggregates : List Aggregate) : List Bucket := aggregates.map fun _ => .empty

/-- The visits that fold a row into the group of a slot. -/
def updateVisits (aggregates : List Aggregate) (t : Table) (row slot : Nat) : List Visit :=
  aggregates.zipIdx.filterMap fun p =>
    (p.1.input? t row).map fun word => ⟨slot, p.2, p.1.function, .update word⟩

/-- One step of a scanner. -/
def step [FloatAddition] (aggregates : List Aggregate) (t : Table) (w : Scanner)
    (g : SharedGroups) : Scanner × SharedGroups :=
  match w.visits with
  | v :: rest => ({ w with visits := rest }, v.perform g)
  | [] =>
    match w.absent with
    | some row =>
      let ((slot, _), g) := g.getOrInsertWith (w.evaluator.keyAt row) fun _ => newBuckets aggregates
      ({ w with absent := none, visits := updateVisits aggregates t row slot }, g)
    | none =>
      match w.pending with
      | [] => (w, g)
      | row :: rest =>
        let evaluator := w.evaluator.visit t row
        match g.findRemembered evaluator with
        | some slot =>
          (⟨evaluator, rest, none, updateVisits aggregates t row slot⟩, g)
        | none => (⟨evaluator, rest, some row, []⟩, g)

/-- The most steps a scanner still has to take. -/
def cost (aggregates : List Aggregate) (w : Scanner) : Nat :=
  w.visits.length + (if w.absent.isSome then 1 + aggregates.length else 0) +
    w.pending.length * (2 + aggregates.length)

/-- Group the rows of all spans, interleaved by a schedule. -/
def scanAll [FloatAddition] (aggregates : List Aggregate) (t : Table) (evaluator : KeyEvaluator)
    (schedule : List Nat) (spans : List Span) (g : SharedGroups) :
    Except Error (Crew Scanner SharedGroups) :=
  (Crew.mk (spans.map (ofSpan evaluator)) g).interleave (fun w g => .ok (step aggregates t w g))
    (cost aggregates) schedule

end Scanner
end Cohort
