/-
  The shortest decimal that reads back.

  A finite float stands for all reals that round to it: an interval around its value whose ends
  belong to it exactly if its significand is even.  `shortest` walks the decimal grids 10^e from
  coarse to fine, starting with one digit, and on each tests the two neighbours of the value.  The
  first grid with a point inside the interval wins; of two points inside, the nearer one, and of
  two equally near the upper one.  All arithmetic is exact, on natural numbers over one common
  denominator.
-/

namespace Cohort

/-- The number `digits * 10 ^ exponent`. -/
structure Decimal where
  digits : Nat
  exponent : Int
deriving DecidableEq

/-- The reals that round to one positive float: `below`, `value` and `above` are numerators over
    `denominator`, and `closed` says whether the two ends round to the float too. -/
structure RoundingInterval where
  below : Nat
  value : Nat
  above : Nat
  denominator : Nat
  closed : Bool
deriving DecidableEq

namespace RoundingInterval

/-- The interval of `significand * 2 ^ exponent`.  The neighbour below is only half as far away
    when the significand is the least normal one (`narrow`). -/
def ofSignificand (significand : Nat) (exponent : Int) (narrow : Bool) : RoundingInterval :=
  let unit := Nat.pow 2 (exponent - 2).toNat
  let value := 4 * significand * unit
  { below := value - (if narrow then unit else 2 * unit)
    value := value
    above := value + 2 * unit
    denominator := Nat.pow 2 (2 - exponent).toNat
    closed := significand % 2 == 0 }

/-- The same interval measured in steps of `10 ^ e`: the denominator becomes the step. -/
def onGrid (t : RoundingInterval) (e : Int) : RoundingInterval :=
  { below := t.below * Nat.pow 10 (-e).toNat
    value := t.value * Nat.pow 10 (-e).toNat
    above := t.above * Nat.pow 10 (-e).toNat
    denominator := t.denominator * Nat.pow 10 e.toNat
    closed := t.closed }

/-- Whether the grid point `c` lies in the interval. -/
def contains (t : RoundingInterval) (c : Nat) : Bool :=
  let x := c * t.denominator
  if t.closed then t.below ≤ x && x ≤ t.above else t.below < x && x < t.above

/-- The grid point to write, if one of the value's two neighbours lies in the interval. -/
def pick? (t : RoundingInterval) : Option Nat :=
  let c := t.value / t.denominator
  match t.contains c, t.contains (c + 1) with
  | true, true =>
    if 2 * (t.value - c * t.denominator) < t.denominator then some c else some (c + 1)
  | true, false => some c
  | false, true => some (c + 1)
  | false, false => none

/-- How many decimal digits a number has. -/
def digitCount (n : Nat) : Nat := (toString n).length

/-- The exponent of the value's leading decimal digit. -/
def leadingExponent (t : RoundingInterval) : Int :=
  let e : Int := (digitCount t.value : Int) - digitCount t.denominator
  if t.denominator * Nat.pow 10 e.toNat ≤ t.value * Nat.pow 10 (-e).toNat then e else e - 1

/-- Try the grid `10 ^ e` and then `n` finer ones. -/
def search (t : RoundingInterval) : Nat → Int → Decimal
  | 0, e => ⟨(t.onGrid e).value / (t.onGrid e).denominator, e⟩
  | n + 1, e =>
    match (t.onGrid e).pick? with
    | some c => ⟨c, e⟩
    | none => t.search n (e - 1)

/-- The shortest decimal in the interval.  Seventeen digits always suffice for a float of 64
    bits. -/
def shortest (t : RoundingInterval) : Decimal := t.search 17 t.leadingExponent

/-- On the grid that is picked, the point does lie in the interval. -/
theorem contains_of_pick? {t : RoundingInterval} {c : Nat} (h : t.pick? = some c) :
    t.contains c = true := by
  simp only [pick?] at h
  split at h
  · split at h <;> cases h <;> assumption
  · cases h; assumption
  · cases h; assumption
  · cases h

end RoundingInterval
end Cohort
