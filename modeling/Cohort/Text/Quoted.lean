import Cohort.Text.Printable
/-
  Quoted text.

  A text is QUOTED between double quotes.  The quote itself and the backslash are written behind a
  backslash, four control characters by a letter or digit of their own, and every other character
  that does not print by its code point in lower-case hexadecimal, as in `\u{200b}`.
-/

namespace Cohort.Text

/-- The hexadecimal digits of a code point, without leading zeros. -/
def hexDigits (n : Nat) : List Char := Nat.toDigits 16 n

/-- A character inside quotes. -/
def escape (c : Char) : List Char :=
  if c = '"' then ['\\', '"']
  else if c = '\\' then ['\\', '\\']
  else if c = '\n' then ['\\', 'n']
  else if c = '\r' then ['\\', 'r']
  else if c = '\t' then ['\\', 't']
  else if c = '\x00' then ['\\', '0']
  else if isPrintable c then [c]
  else ['\\', 'u', '\x7b'] ++ hexDigits c.toNat ++ ['\x7d']

/-- The characters of a text between double quotes. -/
def quoteList (cs : List Char) : List Char := '"' :: cs.flatMap escape ++ ['"']

/-- A text between double quotes. -/
def quote (s : String) : String := String.ofList (quoteList s.toList)

example : quoteList ['a', '"', '\n', '\x1b'] =
    ['"', 'a', '\\', '"', '\\', 'n', '\\', 'u', '\x7b', '1', 'b', '\x7d', '"'] := by
  decide +kernel

end Cohort.Text
