import Cohort.Binary64
import Cohort.Decimal.Layout
/-
  The text of a float: the shortest digits that read back, in a chosen layout.

  Two layouts are in use.  `plain` never writes an exponent and drops the point of a whole number.
  `exact` keeps a `.0`, so that a float is never taken for an integer, and turns to an exponent
  below 10^-4 and from 10^16 on.
-/

namespace Cohort.Binary64

/-- Never an exponent, no point in a whole number. -/
def plain : Decimal.Layout := ⟨none, false⟩

/-- Positional from 10^-4 up to below 10^16, and always a point in positional form. -/
def exact : Decimal.Layout := ⟨some (-4, 16), true⟩

/-- Place value of the least bit of the exponent field. -/
def exponentPlace : Nat := 4503599627370496

/-- The interval of the reals that round to a positive finite float with these magnitude bits. -/
def roundingInterval (magnitude : Nat) : RoundingInterval :=
  let field := magnitude / exponentPlace
  let fraction := magnitude % exponentPlace
  if field = 0 then .ofSignificand fraction (-1074) false
  else .ofSignificand (exponentPlace + fraction) (field - 1075) (fraction == 0)

/-- The text of a float in a layout. -/
def write (l : Decimal.Layout) (x : Binary64) : String :=
  if x.isNaN then "NaN"
  else
    let sign := if x.isNegative then ['-'] else []
    let body :=
      if x.magnitude = infinityBits then ['i', 'n', 'f']
      else if x.magnitude = 0 then Decimal.writeZero l
      else (roundingInterval x.magnitude).shortest.write l
    String.ofList (sign ++ body)

end Cohort.Binary64
