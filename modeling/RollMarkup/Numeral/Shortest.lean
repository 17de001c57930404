/-!
# The shortest decimal of a floating-point number

Among the decimals that read back as a given number, the one with the fewest digits, and of several
such the nearest to the number.
-/

namespace RollMarkup.Numeral

/-- The decimal `digits * 10 ^ exponent`. -/
structure Decimal where
  digits : Nat
  exponent : Int
  deriving DecidableEq, Repr

/-- A positive rational number. -/
structure Ratio where
  num : Nat
  den : Nat

namespace Ratio

/-- The rational number `n * base ^ e`. -/
def scale (n base : Nat) (e : Int) : Ratio :=
  if 0 ≤ e then ⟨n * base.pow e.toNat, 1⟩ else ⟨n, base.pow (-e).toNat⟩

/-- Whether one number is at most another. -/
def le (a b : Ratio) : Bool :=
  a.num * b.den ≤ b.num * a.den

/-- The largest exponent of a power of ten that is not above the number. -/
def magnitude (a : Ratio) : Int :=
  if a.den ≤ a.num then (Nat.toDigits 10 (a.num / a.den)).length - 1
  else
    let n := (Nat.toDigits 10 (a.den / a.num)).length
    if a.den ≤ a.num * Nat.pow 10 (n - 1) then 1 - n else -n

end Ratio

/-- The real numbers that read as one floating-point number: those from `low` to `high`, ends
included if `closed`. -/
structure Neighbourhood where
  low : Ratio
  value : Ratio
  high : Ratio
  closed : Bool

namespace Neighbourhood

/-- The neighbourhood of the positive finite number with these bits. Its ends are halfway to the
numbers beside it, and they read as this number if its significand is even. -/
def ofBits (bits : UInt64) : Neighbourhood :=
  let fraction := bits.toNat % 0x10000000000000
  let biased := bits.toNat / 0x10000000000000 % 0x800
  let m := if biased = 0 then fraction else fraction + 0x10000000000000
  let q : Int := (max biased 1 : Nat) - 1075
  -- Below a power of two the numbers stand twice as close.
  let below := if fraction = 0 ∧ 1 < biased then 1 else 2
  { low := .scale (4 * m - below) 2 (q - 2)
    value := .scale (4 * m) 2 (q - 2)
    high := .scale (4 * m + 2) 2 (q - 2)
    closed := m % 2 = 0 }

/-- Whether a number lies in the neighbourhood. -/
def contains (n : Neighbourhood) (r : Ratio) : Bool :=
  if n.closed then n.low.le r && r.le n.high else !r.le n.low && !n.high.le r

/-- Of the two multiples of `10 ^ e` around the value, the one in the neighbourhood, and of two the
nearer; a tie goes to the even one. -/
def onGrid? (n : Neighbourhood) (e : Int) : Option Decimal :=
  let unit := Ratio.scale 1 10 e
  let num := n.value.num * unit.den
  let den := n.value.den * unit.num
  let down := num / den
  let twice := 2 * (num % den)
  match n.contains (.scale down 10 e), n.contains (.scale (down + 1) 10 e) with
  | true, true =>
    if twice < den ∨ (twice = den ∧ down % 2 = 0) then some ⟨down, e⟩ else some ⟨down + 1, e⟩
  | true, false => some ⟨down, e⟩
  | false, true => some ⟨down + 1, e⟩
  | false, false => none

/-- The shortest decimal in the neighbourhood. The coarsest grid is one on which the value itself
is less than one step; seventeen digits are always enough. -/
def shortest (n : Neighbourhood) : Decimal :=
  let top := n.value.magnitude + 1
  ((List.range 18).findSome? fun (k : Nat) => n.onGrid? (top - k)).getD ⟨0, 0⟩

end Neighbourhood

/-- A decimal as text, with a point or an exponent: positional from `10 ^ -5` up to `10 ^ 16`. An
exponent always has a sign. -/
def Decimal.text (d : Decimal) : String :=
  let digits := Nat.toDigits 10 d.digits
  let n : Int := digits.length
  -- The number of digits before the point.
  let point := n + d.exponent
  let zeros (k : Int) : List Char := List.replicate k.toNat '0'
  String.ofList <|
    if 0 ≤ d.exponent ∧ point ≤ 16 then digits ++ zeros d.exponent ++ ['.', '0']
    else if 0 < point ∧ point ≤ 16 then
      digits.take point.toNat ++ ['.'] ++ digits.drop point.toNat
    else if -5 < point ∧ point ≤ 0 then ['0', '.'] ++ zeros (-point) ++ digits
    else
      let mantissa := if digits.length ≤ 1 then digits else digits.take 1 ++ ['.'] ++ digits.drop 1
      mantissa ++ ['e'] ++ (if 0 < point then ['+'] else []) ++ (point - 1).repr.toList

/-- The shortest text of a finite floating-point number; it always shows that it is no integer. -/
def writeFloat (x : Float) : String :=
  let bits := x.toBits
  let size := bits.toNat % 0x8000000000000000
  let text :=
    if size = 0 then "0.0" else (Neighbourhood.ofBits (UInt64.ofNat size)).shortest.text
  if bits.toNat < 0x8000000000000000 then text else "-" ++ text

end RollMarkup.Numeral
