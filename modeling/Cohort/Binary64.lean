/-
  Double precision floats, as their 64 bits.

  A float IS its bit pattern here: two NaNs of different payload are different values, and so are
  the two zeros.  Three things are read off the bits:

  * `rank`     — the IEEE total order, an integer that grows from the NaNs of negative sign over
                 -∞, -0.0, +0.0 and +∞ to the NaNs of positive sign;
  * `eq`       — the comparison of numbers, for which no NaN equals anything and the zeros are one;
  * `toFloat`  — the machine number, where arithmetic is needed.
-/

namespace Cohort

/-- A double precision float by its IEEE bit pattern. -/
structure Binary64 where
  bits : UInt64
deriving DecidableEq

namespace Binary64

/-- Place value of the sign bit. -/
def signPlace : Nat := 9223372036854775808

/-- Bits of positive infinity; all larger patterns below `signPlace` are NaNs. -/
def infinityBits : Nat := 9218868437227405312

/-- The sign bit. -/
def isNegative (x : Binary64) : Bool := decide (signPlace ≤ x.bits.toNat)

/-- The bits without the sign. -/
def magnitude (x : Binary64) : Nat := x.bits.toNat % signPlace

/-- Whether the pattern is a NaN of any sign and payload. -/
def isNaN (x : Binary64) : Bool := decide (infinityBits < x.magnitude)

/-! ## Comparison -/

/-- Place in the IEEE total order.  Patterns of positive sign count up from zero, those of
    negative sign count down from minus one. -/
def rank (x : Binary64) : Int :=
  if x.bits.toNat < signPlace then (x.bits.toNat : Int) else (signPlace : Int) - 1 - x.bits.toNat

/-- The total order tells every two patterns apart. -/
theorem rank_injective {x y : Binary64} (h : x.rank = y.rank) : x = y := by
  have hx := x.bits.toNat_lt
  have hy := y.bits.toNat_lt
  obtain ⟨a⟩ := x
  obtain ⟨b⟩ := y
  simp only [rank, signPlace] at *
  congr 1
  apply UInt64.toNat.inj
  by_cases ha : a.toNat < 9223372036854775808 <;> by_cases hb : b.toNat < 9223372036854775808 <;>
    simp only [ha, hb, if_true, if_false] at h <;> omega

/-- Equality of NUMBERS: false as soon as a NaN takes part, and both zeros are equal. -/
def eq (x y : Binary64) : Bool :=
  !x.isNaN && !y.isNaN && (x == y || (x.magnitude == 0 && y.magnitude == 0))

/-! ## Arithmetic, through the machine -/

/-- The machine number with these bits. -/
def toFloat (x : Binary64) : Float := Float.ofBits x.bits

/-- The bits of a machine number. -/
def ofFloat (x : Float) : Binary64 := ⟨x.toBits⟩

/-- The float nearest to a signed integer. -/
def ofInt (v : Int64) : Binary64 := ofFloat v.toFloat

/-- The float nearest to a count. -/
def ofCount (n : UInt64) : Binary64 := ofFloat n.toFloat

/-- The quotient, rounded to nearest. -/
def div (x y : Binary64) : Binary64 := ofFloat (x.toFloat / y.toFloat)

end Binary64
end Cohort
