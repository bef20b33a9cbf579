import Cohort.Aggregate.Numeric
import Cohort.Aggregate.Tally
/-
  How an aggregate folds words into a tally.

  An AGGREGATE FUNCTION is a kind in a numeric domain; it holds no state.  Both of its operations
  come down to one CONTRIBUTION of a word that stands for some number of inputs:

  * `update` contributes an input, which stands for itself;
  * `merge`  contributes what another tally has gathered, unless that tally has nothing to say.

  A count is a word, and past the greatest one a sum of words starts over.  A run over a table does
  not get there, as tables have fewer rows.  Whoever merges tallies at will can get there with less
  than a hundred merges; for him there are `updateChecked` and `mergeChecked`, which CHECK the count
  and fail where no word can hold it.

  Only `finalize` turns a tally into a value, and only there is an average divided.
-/

namespace Cohort

/-- Ask that a word can hold the count of so many inputs. -/
def Tally.demandCount (inputs : Nat) : Except Error Unit :=
  if inputs < UInt64.size then .ok () else .error (.outOfRange inputs UInt64.size)

/-- A kind of aggregate in a numeric domain. -/
structure AggregateFunction where
  kind : AggregateKind
  numeric : Numeric
deriving DecidableEq

namespace AggregateFunction

/-- The type of the finalized value. -/
def returnType (f : AggregateFunction) : DataType :=
  match f.kind with
  | .count => .int64
  | .avg => .float64
  | .sum | .min | .max => f.numeric.datatype

/-- Whether `candidate` is to replace the extremum `current`. -/
def improves (f : AggregateFunction) (candidate current : UInt64) : Bool :=
  match f.kind with
  | .min => f.numeric.less candidate current
  | .max => f.numeric.less current candidate
  | _ => false

variable [FloatAddition]

/-! ## Folding -/

/-- Bring a word into the value of a tally. -/
def absorb (f : AggregateFunction) (t : Tally) (word : UInt64) : Tally :=
  match f.kind with
  | .count => t
  | .sum | .avg => { t with value := f.numeric.add t.value word }
  | .min | .max =>
    if !t.isSet || f.improves word t.value then { t with value := word, isSet := true } else t

/-- Bring in a word that stands for `weight` inputs. -/
def contribute (f : AggregateFunction) (t : Tally) (word weight : UInt64) : Tally :=
  let t := f.absorb t word
  { t with count := t.count + weight }

/-- Fold one input into a tally. -/
def update (f : AggregateFunction) (t : Tally) (input : UInt64) : Tally := f.contribute t input 1

/-- Whether a tally has nothing to bring into another one: a sum without inputs, an extremum that
    is not set. -/
def ignores (f : AggregateFunction) (other : Tally) : Bool :=
  match f.kind with
  | .count => false
  | .sum | .avg => other.count == 0
  | .min | .max => !other.isSet

/-- Fold another tally into a tally. -/
def merge (f : AggregateFunction) (t other : Tally) : Tally :=
  if f.ignores other then t else f.contribute t other.value other.count

/-- The tally of a list of inputs. -/
def foldInputs (f : AggregateFunction) (inputs : List UInt64) : Tally :=
  inputs.foldl f.update .empty

/-! ## Folding with a checked count -/

/-- `contribute`, unless no word can hold the count. -/
def contributeChecked (f : AggregateFunction) (t : Tally) (word weight : UInt64) :
    Except Error Tally := do
  Tally.demandCount (t.count.toNat + weight.toNat)
  return f.contribute t word weight

/-- `update` with a checked count. -/
def updateChecked (f : AggregateFunction) (t : Tally) (input : UInt64) : Except Error Tally :=
  f.contributeChecked t input 1

/-- `merge` with a checked count.  What is ignored is not counted either. -/
def mergeChecked (f : AggregateFunction) (t other : Tally) : Except Error Tally :=
  if f.ignores other then .ok t else f.contributeChecked t other.value other.count

/-! ## Reading -/

omit [FloatAddition]

/-- The value of a tally. -/
def finalize (f : AggregateFunction) (t : Tally) : Scalar :=
  match f.kind with
  | .count => .int t.count.toInt64
  | .sum => if t.count = 0 then .null else f.numeric.decode t.value
  | .avg =>
    if t.count = 0 then .null
    else .float ((f.numeric.toBinary64 t.value).div (.ofCount t.count))
  | .min | .max => if t.isSet then f.numeric.decode t.value else .null

end AggregateFunction
end Cohort
