import Cohort.Decimal.Shortest
/-
  Writing a decimal with digits, point and exponent.

  What differs between one printed form and another is a `Layout`: which magnitudes are written
  positionally and which with an exponent, and whether a whole number keeps a `.0`.  The digits are
  the same in all of them.
-/

namespace Cohort.Decimal

/-- The choices of one printed form. -/
structure Layout where
  /-- Exponents of the leading digit from the first up to but not including the second are written
      positionally; without bounds all are. -/
  positional : Option (Int × Int)
  /-- Whether a whole number is written with `.0`. -/
  keepsPoint : Bool

/-- Whether a number with this leading exponent is written positionally. -/
def Layout.isPositional (l : Layout) (exponent : Int) : Bool :=
  match l.positional with
  | none => true
  | some (least, limit) => least ≤ exponent && exponent < limit

/-- Significant digits: those of `d`, without zeros at the end. -/
def significant (d : Decimal) : List Char :=
  ((toString d.digits).toList.reverse.dropWhile (· == '0')).reverse

/-- Where the point stands: `0.` before the significant digits, times ten to this. -/
def pointPlace (d : Decimal) : Int := ((toString d.digits).length : Int) + d.exponent

/-- Digits `ds` with the point after `place` of them, zeros filled in on either side. -/
def positionalText (l : Layout) (ds : List Char) (place : Int) : List Char :=
  if place ≤ 0 then ['0', '.'] ++ List.replicate (-place).toNat '0' ++ ds
  else if place < ds.length then ds.take place.toNat ++ '.' :: ds.drop place.toNat
  else ds ++ List.replicate (place.toNat - ds.length) '0' ++ (if l.keepsPoint then ['.', '0'] else [])

/-- Digits `ds` with the point after the first and the exponent behind an `e`. -/
def scientificText (ds : List Char) (exponent : Int) : List Char :=
  ds.take 1 ++ (if ds.length ≤ 1 then [] else '.' :: ds.drop 1) ++ 'e' :: (toString exponent).toList

/-- A positive decimal in the given layout. -/
def write (l : Layout) (d : Decimal) : List Char :=
  let exponent := d.pointPlace - 1
  if l.isPositional exponent then positionalText l d.significant d.pointPlace
  else scientificText d.significant exponent

/-- Zero in the given layout. -/
def writeZero (l : Layout) : List Char := if l.keepsPoint then ['0', '.', '0'] else ['0']

end Cohort.Decimal
