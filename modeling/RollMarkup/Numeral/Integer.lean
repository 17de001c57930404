/-!
# Signed integers in decimal

Reading and writing of 64-bit integers as decimal text.
-/

namespace RollMarkup.Numeral

/-- The natural number that a non-empty run of ASCII digits stands for. -/
def natural? (cs : List Char) : Option Nat :=
  if cs ≠ [] ∧ cs.all Char.isDigit then some (Nat.ofDigitChars 10 cs 0) else none

/-- The 64-bit integer with this value, if there is one. -/
def ofInt? (n : Int) : Option Int64 :=
  if Int64.minValue.toInt ≤ n ∧ n ≤ Int64.maxValue.toInt then some (Int64.ofInt n) else none

/-- The integer that an optional sign and a run of digits stand for, if 64 bits hold it. -/
def ofChars? : List Char → Option Int64
  | '-' :: cs => (natural? cs).bind fun n => ofInt? (-(n : Int))
  | '+' :: cs => (natural? cs).bind fun n => ofInt? n
  | cs => (natural? cs).bind fun n => ofInt? n

/-- Reads an integer; any other text is none. -/
def read? (s : String) : Option Int64 :=
  ofChars? s.toList

/-- The digits of an integer, after a minus sign if it is negative. -/
def write (n : Int64) : String :=
  n.toInt.repr

/-- The digits of an integer, always after a sign. -/
def writeSigned (n : Int64) : String :=
  if 0 ≤ n then "+" ++ write n else write n

end RollMarkup.Numeral
