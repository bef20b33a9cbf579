import Cohort.Aggregate.Function
import Cohort.Expr
/-
  Aggregates: a function bound to the expression it takes its inputs from.

  `create` settles the numeric domain: counts work in integers whatever they count, averages in
  floats even over integers, so that they never wrap, and the rest in the domain of their input.  A
  row CONTRIBUTES to an aggregate if `input?` is a word.  A count without an input takes every row;
  a count of an expression takes the rows where the expression does not miss; the others need a
  value of their domain besides.
-/

namespace Cohort

/-- An aggregate function with its input expression; no expression means every row. -/
structure Aggregate where
  function : AggregateFunction
  input : Option Expr
deriving DecidableEq

namespace Aggregate

/-- The domain in which an aggregate of this kind works over inputs of this type. -/
def domain (kind : AggregateKind) (input : DataType) : Option Numeric :=
  match kind with
  | .count => some .int64
  | .avg => (Numeric.ofDataType? input).map fun _ => .float64
  | .sum | .min | .max => Numeric.ofDataType? input

/-- Bind a kind to an input. -/
def create (kind : AggregateKind) (input : Option Expr) : Except Error Aggregate :=
  match input with
  | none =>
    match kind with
    | .count => .ok ⟨⟨.count, .int64⟩, none⟩
    | k => .error (.inputRequired k)
  | some e =>
    match domain kind e.datatype with
    | some n => .ok ⟨⟨kind, n⟩, some e⟩
    | none => .error (.inputNotNumeric kind e.datatype)

/-- The count of all rows. -/
def countRows : Aggregate := ⟨⟨.count, .int64⟩, none⟩

/-- The name of an aggregate in results. -/
def name (a : Aggregate) : String :=
  match a.input with
  | some e => a.function.kind.name ++ "(" ++ e.name ++ ")"
  | none => a.function.kind.name ++ "(*)"

/-- The type of the finalized value. -/
def returnType (a : Aggregate) : DataType := a.function.returnType

/-- The word that a row contributes, if it contributes. -/
def input? (a : Aggregate) (t : Table) (row : Nat) : Option UInt64 :=
  match a.input with
  | none => some 0
  | some e =>
    (e.eval t row).bind fun v =>
      match a.function.kind with
      | .count => some 0
      | _ => a.function.numeric.encode v

/-- The words that some rows contribute, in order. -/
def inputs (a : Aggregate) (t : Table) (rows : List Nat) : List UInt64 := rows.filterMap (a.input? t)

/-- A tally after a row. -/
def updateTally [FloatAddition] (a : Aggregate) (t : Table) (row : Nat) (tally : Tally) : Tally :=
  match a.input? t row with
  | none => tally
  | some word => a.function.update tally word

/-- `updateTally` with a checked count. -/
def updateTallyChecked [FloatAddition] (a : Aggregate) (t : Table) (row : Nat) (tally : Tally) :
    Except Error Tally :=
  match a.input? t row with
  | none => .ok tally
  | some word => a.function.updateChecked tally word

end Aggregate
end Cohort
