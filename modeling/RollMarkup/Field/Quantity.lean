import RollMarkup.Numeral.Integer

/-!
# Numeric fields that also take a formula
-/

namespace RollMarkup

/-- A difficulty class or an attack bonus: a number, or a formula to be worked out later. -/
inductive Quantity where
  | number (n : Int64)
  | formula (text : String)
  deriving DecidableEq, Repr

namespace Quantity

/-- Any text that is not a 64-bit integer is a formula. -/
def ofText (s : String) : Quantity :=
  match Numeral.read? s with
  | some n => number n
  | none => formula s

/-- The text of a quantity. -/
def toText : Quantity → String
  | number n => Numeral.write n
  | formula s => s

/-- The text of a quantity that adds to a roll: a number always has a sign. -/
def toSignedText : Quantity → String
  | number n => Numeral.writeSigned n
  | formula s => s

/-- The number, if it is one. -/
def number? : Quantity → Option Int64
  | number n => some n
  | formula _ => none

end Quantity

/-- The average shown beside a roll: the computed one or none, or a value that replaces it. -/
inductive Average where
  | shown (flag : Bool)
  | number (n : Int64)
  | formula (text : String)
  deriving DecidableEq, Repr

namespace Average

/-- The words `true` and `false` are flags; other text is a number if it can be. -/
def ofText (s : String) : Average :=
  if s = "true" then shown true
  else if s = "false" then shown false
  else
    match Numeral.read? s with
    | some n => number n
    | none => formula s

/-- The text of an average. -/
def toText : Average → String
  | shown true => "true"
  | shown false => "false"
  | number n => Numeral.write n
  | formula s => s

/-- An average that replaces the computed one. -/
def replacesComputed : Average → Bool
  | shown _ => false
  | number _ | formula _ => true

end Average

end RollMarkup
