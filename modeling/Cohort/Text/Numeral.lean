/-
  Reading unsigned decimal numerals of bounded size.

  A NUMERAL is an optional plus sign and at least one ASCII digit, with any number of leading
  zeros.  `read limit` accepts the numerals that denote at most `limit`.  A text with several faults
  is refused for the first one from the left, where the digits read so far are already too large
  one digit before anything behind them is looked at.
-/

namespace Cohort.Text

/-- Why a text is no numeral within the limit. -/
inductive NumeralFault
  | empty
  | invalidDigit
  | tooLarge
deriving DecidableEq

/-- The wording of a fault. -/
def NumeralFault.message : NumeralFault → String
  | .empty => "cannot parse integer from empty string"
  | .invalidDigit => "invalid digit found in string"
  | .tooLarge => "number too large to fit in target type"

namespace Numeral

/-- The value of an ASCII digit. -/
def digit? (c : Char) : Option Nat :=
  if 48 ≤ c.toNat ∧ c.toNat ≤ 57 then some (c.toNat - 48) else none

/-- Read digits behind those already read, which denote `value`. -/
def readDigits (limit : Nat) : Nat → List Char → Except NumeralFault Nat
  | value, [] => .ok value
  | value, c :: cs =>
    match digit? c with
    | none => .error .invalidDigit
    | some d =>
      if limit < 10 * value + d then .error .tooLarge else readDigits limit (10 * value + d) cs

/-- Read a numeral.  A plus sign alone is a sign without a digit, hence no numeral. -/
def readList (limit : Nat) : List Char → Except NumeralFault Nat
  | [] => .error .empty
  | ['+'] => .error .invalidDigit
  | '+' :: cs => readDigits limit 0 cs
  | cs => readDigits limit 0 cs

/-- Read a numeral that denotes at most `limit`. -/
def read (limit : Nat) (s : String) : Except NumeralFault Nat := readList limit s.toList

/-- The largest number of 64 bits. -/
def maxWord : Nat := 18446744073709551615

/-- The largest number of 8 bits. -/
def maxByte : Nat := 255

/-- What is read never exceeds the limit. -/
theorem readDigits_le {limit value n : Nat} {cs : List Char} (hv : value ≤ limit)
    (h : readDigits limit value cs = .ok n) : n ≤ limit := by
  induction cs generalizing value with
  | nil => cases h; exact hv
  | cons c cs ih =>
    simp only [readDigits] at h
    split at h
    · cases h
    · split at h
      · cases h
      · exact ih (by omega) h

example : readList maxByte ['+', '0', '0', '2', '5', '5'] = .ok 255 := rfl
example : readList maxByte ['2', '5', '6', 'x'] = .error .tooLarge := rfl
example : readList maxByte ['2', '5', 'x', '6'] = .error .invalidDigit := rfl
example : readList maxByte ['-', '1'] = .error .invalidDigit := rfl

end Numeral
end Cohort.Text
