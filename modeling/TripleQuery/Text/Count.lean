import TripleQuery.Text.Ranges

/-!
# Counts

A count is written with decimal digits and may have a plus sign in front. It fits into 64 bits.
-/

namespace TripleQuery.Text

/-- The counts that can be represented are those below this bound, the sixty-fourth power of two. -/
def countBound : Nat := 18446744073709551616

def readDigits (digits : List Char) : Option Nat :=
  if digits.isEmpty || !digits.all isDigit then none
  else if decimalValue digits < countBound then some (decimalValue digits) else none

def readCount (text : String) : Option Nat :=
  match text.toList with
  | '+' :: digits => readDigits digits
  | digits => readDigits digits

example : readCount "+007" = some 7 := by decide
example : readCount "18446744073709551615" = some (countBound - 1) := by decide
example : readCount "18446744073709551616" = none := by decide
example : readCount "" = none := by decide
example : readCount "+" = none := by decide
example : readCount "-0" = none := by decide

end TripleQuery.Text
