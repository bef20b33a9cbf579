/-
  The kinds of aggregates.
-/

namespace Cohort

/-- What an aggregate computes. -/
inductive AggregateKind
  | count
  | sum
  | avg
  | min
  | max
deriving DecidableEq

namespace AggregateKind

/-- All kinds. -/
def all : List AggregateKind := [.count, .sum, .avg, .min, .max]

/-- The name a kind is written by. -/
def name : AggregateKind → String
  | .count => "count"
  | .sum => "sum"
  | .avg => "avg"
  | .min => "min"
  | .max => "max"

/-- The kind of a name, in any mixture of ASCII capitals and small letters. -/
def ofName? (text : String) : Option AggregateKind :=
  all.find? fun k => k.name == String.ofList (text.toList.map Char.toLower)

end AggregateKind
end Cohort
