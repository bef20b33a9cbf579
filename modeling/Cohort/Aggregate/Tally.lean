/-
  Tallies: the running state of one aggregate over one group.
-/

namespace Cohort

/-- What one aggregate has gathered about one group so far. -/
structure Tally where
  /-- The running sum, or the extremum found so far, as a word of the aggregate's domain. -/
  value : UInt64 := 0
  /-- How many inputs have contributed. -/
  count : UInt64 := 0
  /-- Whether `value` is an extremum that some input brought. -/
  isSet : Bool := false
deriving DecidableEq, Inhabited

/-- The tally of no inputs. -/
def Tally.empty : Tally := {}

end Cohort
