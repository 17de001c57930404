import RollMarkup.Json.Basic

/-!
# Reading of JSON numbers

A number without fraction and exponent is an integer as far as 64 bits reach. Every other number is
a floating-point number: its first digits as far as 64 bits hold them, times a power of ten.
-/

namespace RollMarkup.Json

/-- The parts of a number's text. -/
structure NumberText where
  negative : Bool
  whole : List Char
  fraction : Option (List Char)
  exponent : Option Int

namespace NumberText

/-- The digits that a text begins with, at least one, and the text behind them. -/
def digits? (cs : List Char) : Option (List Char × List Char) :=
  let ds := cs.takeWhile Char.isDigit
  if ds = [] then none else some (ds, cs.dropWhile Char.isDigit)

/-- The whole part: it begins with a zero only if it is one. -/
def whole? (cs : List Char) : Option (List Char × List Char) :=
  (digits? cs).filter fun p => p.1.head? ≠ some '0' || p.1 = ['0']

/-- The digits behind a point, if there is one. -/
def fraction? : List Char → Option (Option (List Char) × List Char)
  | '.' :: cs => (digits? cs).map fun p => (some p.1, p.2)
  | cs => some (none, cs)

/-- The sign and the digits of an exponent, which take up all of the text. -/
def exponentValue? (cs : List Char) : Option Int :=
  let signed : Bool × List Char :=
    match cs with
    | '-' :: ds => (true, ds)
    | '+' :: ds => (false, ds)
    | ds => (false, ds)
  match digits? signed.2 with
  | some (ds, []) =>
    let n : Int := Nat.ofDigitChars 10 ds 0
    some (if signed.1 then -n else n)
  | _ => none

/-- The exponent that takes up all of the text, if there is one. -/
def exponent? : List Char → Option (Option Int)
  | [] => some none
  | c :: cs => if c = 'e' ∨ c = 'E' then (exponentValue? cs).map some else none

/-- The parts of a number that takes up all of the text. -/
def ofChars? (cs : List Char) : Option NumberText :=
  let signed : Bool × List Char :=
    match cs with
    | '-' :: ds => (true, ds)
    | ds => (false, ds)
  (whole? signed.2).bind fun w =>
    (fraction? w.2).bind fun f =>
      (exponent? f.2).map fun e => ⟨signed.1, w.1, f.1, e⟩

end NumberText

/-- A significand that fills up with digits, and the power of ten that it is short of. -/
structure Significand where
  value : Nat
  exponent : Int
  full : Bool

namespace Significand

/-- One more digit of the whole part. The digits that 64 bits have no room for count as zeros. -/
def addWhole (s : Significand) (c : Char) : Significand :=
  let next := 10 * s.value + (c.toNat - '0'.toNat)
  if s.full || UInt64.size ≤ next then ⟨s.value, s.exponent + 1, true⟩
  else ⟨next, s.exponent, false⟩

/-- One more digit behind the point. From the first one on that 64 bits have no room for, digits
are left out. -/
def addFraction (s : Significand) (c : Char) : Significand :=
  let next := 10 * s.value + (c.toNat - '0'.toNat)
  if s.full || UInt64.size ≤ next then ⟨s.value, s.exponent, true⟩
  else ⟨next, s.exponent - 1, false⟩

end Significand

/-- The number times a power of ten, as floating-point numbers are multiplied; none if that is too
large. -/
def scale? (x : Float) (e : Int) : Option Float :=
  if e.natAbs ≤ 308 then
    let power := Float.ofScientific 1 false e.natAbs
    if 0 ≤ e then (some (x * power)).filter fun y => !y.isInf else some (x / power)
  else if x == 0 then some x
  else if 0 ≤ e then none
  else scale? (x / 1e308) (e + 308)
termination_by e.natAbs

/-- The floating-point number that the text stands for. -/
def NumberText.float? (t : NumberText) : Option Float :=
  let whole := t.whole.foldl Significand.addWhole ⟨0, 0, false⟩
  let all := (t.fraction.getD []).foldl Significand.addFraction { whole with full := false }
  (scale? (UInt64.ofNat all.value).toFloat (all.exponent + t.exponent.getD 0)).map fun x =>
    if t.negative then -x else x

/-- The number that a text stands for. A negative zero is no integer. -/
def number? (cs : List Char) : Option Json :=
  (NumberText.ofChars? cs).bind fun t =>
    let n := Nat.ofDigitChars 10 t.whole 0
    let isInt := t.fraction.isNone && t.exponent.isNone &&
      if t.negative then 0 < n && n ≤ 0x8000000000000000 else n < UInt64.size
    if isInt then some (.int (if t.negative then -n else n)) else t.float?.map .float

end RollMarkup.Json
