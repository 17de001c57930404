import RollMarkup.Numeral.Integer
import RollMarkup.Numeral.Shortest
import RollMarkup.Text.Cut
import RollMarkup.Text.Hex

/-!
# The parts of a line of TOML

Gaps and comments, strings, keys and numbers. Each reader takes its part from the front of a text
and gives back the rest.
-/

namespace RollMarkup.Toml

/-- What has been read from the front of a text, and the rest of the text. -/
abbrev Reading (α : Type) := Option (α × List Char)

/-! ### Gaps -/

/-- The characters that may stand between the parts of a line. -/
def isGap (c : Char) : Bool :=
  c = ' ' || c = '\t'

/-- The text behind a gap. -/
def skipGap (cs : List Char) : List Char :=
  cs.dropWhile isGap

/-- Tabs, and every character that is not a control character. -/
def isPlain (c : Char) : Bool :=
  c = '\t' || (0x20 ≤ c.toNat && c.toNat ≠ 0x7F)

/-- The text behind a gap, a comment and the end of the line; the end of the text ends its line. -/
def endLine? (cs : List Char) : Option (List Char) :=
  let comment : List Char → List Char
    | '#' :: rest => rest.dropWhile isPlain
    | rest => rest
  match comment (skipGap cs) with
  | [] => some []
  | '\n' :: rest | '\r' :: '\n' :: rest => some rest
  | _ => none

/-- The text behind gaps, comments and ends of lines. -/
def skipLines? (inComment : Bool) : List Char → Option (List Char)
  | [] => some []
  | '\n' :: cs | '\r' :: '\n' :: cs => skipLines? false cs
  | c :: cs =>
    if inComment then if isPlain c then skipLines? true cs else none
    else if isGap c then skipLines? false cs
    else if c = '#' then skipLines? true cs
    else some (c :: cs)

/-! ### Strings -/

/-- The character whose number has these hexadecimal digits. -/
def charOfHex? (digits : List Char) : Option Char :=
  (digits.mapM Text.hexValue?).bind fun ds =>
    let n := ds.foldl (fun n d => 16 * n + d) 0
    if n.isValidChar then some (Char.ofNat n) else none

/-- The character that a letter behind a backslash stands for. -/
def escaped? (c : Char) : Option Char :=
  [('"', '"'), ('\\', '\\'), ('b', '\x08'), ('f', '\x0c'), ('n', '\n'), ('r', '\r'),
   ('t', '\t')].lookup c

/-- A string on one line, behind its opening quote. -/
def basic? : List Char → Reading (List Char)
  | [] => none
  | '"' :: cs => some ([], cs)
  | '\\' :: 'u' :: a :: b :: c :: d :: cs =>
    (charOfHex? [a, b, c, d]).bind fun x => (basic? cs).map fun p => (x :: p.1, p.2)
  | '\\' :: 'U' :: a :: b :: c :: d :: e :: f :: g :: h :: cs =>
    (charOfHex? [a, b, c, d, e, f, g, h]).bind fun x => (basic? cs).map fun p => (x :: p.1, p.2)
  | '\\' :: c :: cs =>
    (escaped? c).bind fun x => (basic? cs).map fun p => (x :: p.1, p.2)
  | c :: cs =>
    if c = '\\' || !isPlain c then none else (basic? cs).map fun p => (c :: p.1, p.2)

/-- A string on one line in which nothing is escaped, behind its opening quote. -/
def literal? : List Char → Reading (List Char)
  | [] => none
  | '\'' :: cs => some ([], cs)
  | c :: cs => if isPlain c then (literal? cs).map fun p => (c :: p.1, p.2) else none

/-- Whether a backslash stands at the end of its line. -/
def endsLine (cs : List Char) : Bool :=
  match skipGap cs with
  | '\n' :: _ | '\r' :: '\n' :: _ => true
  | _ => false

/-- A string on several lines, behind its opening quotes. A backslash at the end of a line joins it
to the next text; `joining` tells that the gap behind one is being passed over. -/
def basicLines? (joining : Bool) : List Char → Reading (List Char)
  | [] => none
  | '"' :: '"' :: '"' :: '"' :: '"' :: cs => some (['"', '"'], cs)
  | '"' :: '"' :: '"' :: '"' :: cs => some (['"'], cs)
  | '"' :: '"' :: '"' :: cs => some ([], cs)
  | '\r' :: '\n' :: cs =>
    if joining then basicLines? true cs else (basicLines? false cs).map fun p => ('\n' :: p.1, p.2)
  | '\\' :: 'u' :: a :: b :: c :: d :: cs =>
    (charOfHex? [a, b, c, d]).bind fun x => (basicLines? false cs).map fun p => (x :: p.1, p.2)
  | '\\' :: 'U' :: a :: b :: c :: d :: e :: f :: g :: h :: cs =>
    (charOfHex? [a, b, c, d, e, f, g, h]).bind fun x =>
      (basicLines? false cs).map fun p => (x :: p.1, p.2)
  | '\\' :: c :: cs =>
    if endsLine (c :: cs) then basicLines? true cs
    else (escaped? c).bind fun x => (basicLines? false cs).map fun p => (x :: p.1, p.2)
  | c :: cs =>
    if joining && (isGap c || c = '\n') then basicLines? true cs
    else if c = '\\' || !(isPlain c || c = '\n') then none
    else (basicLines? false cs).map fun p => (c :: p.1, p.2)

/-- A string on several lines in which nothing is escaped, behind its opening quotes. -/
def literalLines? : List Char → Reading (List Char)
  | [] => none
  | '\'' :: '\'' :: '\'' :: '\'' :: '\'' :: cs => some (['\'', '\''], cs)
  | '\'' :: '\'' :: '\'' :: '\'' :: cs => some (['\''], cs)
  | '\'' :: '\'' :: '\'' :: cs => some ([], cs)
  | '\r' :: '\n' :: cs => (literalLines? cs).map fun p => ('\n' :: p.1, p.2)
  | c :: cs =>
    if isPlain c || c = '\n' then (literalLines? cs).map fun p => (c :: p.1, p.2) else none

/-- The text behind the end of a line, if it begins with one. -/
def dropLineEnd : List Char → List Char
  | '\n' :: cs | '\r' :: '\n' :: cs => cs
  | cs => cs

/-- A string of any form. -/
def string? : List Char → Reading String
  | '"' :: '"' :: '"' :: cs =>
    (basicLines? false (dropLineEnd cs)).map fun p => (String.ofList p.1, p.2)
  | '\'' :: '\'' :: '\'' :: cs =>
    (literalLines? (dropLineEnd cs)).map fun p => (String.ofList p.1, p.2)
  | '"' :: cs => (basic? cs).map fun p => (String.ofList p.1, p.2)
  | '\'' :: cs => (literal? cs).map fun p => (String.ofList p.1, p.2)
  | _ => none

/-! ### Keys -/

/-- A character of a key without quotes. -/
def isBareKeyChar (c : Char) : Bool :=
  c.isAlphanum || c = '-' || c = '_'

/-- A key without dots: a bare word or a string on one line. -/
def simpleKey? : List Char → Reading String
  | '"' :: cs => (basic? cs).map fun p => (String.ofList p.1, p.2)
  | '\'' :: cs => (literal? cs).map fun p => (String.ofList p.1, p.2)
  | cs =>
    let word := cs.takeWhile isBareKeyChar
    if word = [] then none else some (String.ofList word, cs.dropWhile isBareKeyChar)

/-- A key with dots between its parts. There are at most `fuel` parts. -/
def keyWithin? : Nat → List Char → Reading (List String)
  | 0, _ => none
  | fuel + 1, cs =>
    (simpleKey? (skipGap cs)).bind fun p =>
      match skipGap p.2 with
      | '.' :: rest => (keyWithin? fuel rest).map fun q => (p.1 :: q.1, q.2)
      | rest => some ([p.1], rest)

/-- Lists and tables may stand in each other this many times, and a key may have this many
parts. -/
def maxDepth : Nat := 79

/-- A key and the gaps around it. -/
def key? (cs : List Char) : Reading (List String) :=
  keyWithin? maxDepth cs

/-! ### Numbers -/

/-- Digits with single underscores between them. -/
def isDigitRun (isDigit : Char → Bool) (cs : List Char) : Bool :=
  let parts := cs.splitOn '_'
  parts.all fun part => part ≠ [] && part.all isDigit

/-- A run of digits that begins with a zero only if it is one. -/
def isDecimalRun (cs : List Char) : Bool :=
  isDigitRun Char.isDigit cs && (cs.head? ≠ some '0' || cs = ['0'])

/-- The text without its sign. -/
def unsigned : List Char → List Char
  | '+' :: cs | '-' :: cs => cs
  | cs => cs

/-- The number that digits with underscores between them stand for. -/
def naturalOf (cs : List Char) : Nat :=
  Nat.ofDigitChars 10 (cs.filter (· ≠ '_')) 0

/-- The exponent with an optional sign. -/
def exponent? (cs : List Char) : Option Int :=
  if !isDigitRun Char.isDigit (unsigned cs) then none
  else if cs.head? = some '-' then some (-(naturalOf (unsigned cs) : Int))
  else some (naturalOf (unsigned cs))

/-- A whole part, a fraction that may be missing, and an exponent. -/
def significand? (mantissa : List Char) (e : Int) : Option (List Char × List Char × Int) :=
  match Text.cutFirst? '.' mantissa with
  | none => if isDecimalRun mantissa then some (mantissa, [], e) else none
  | some (whole, fraction) =>
    if isDecimalRun whole && isDigitRun Char.isDigit fraction then some (whole, fraction, e)
    else none

/-- The whole part, the fraction and the exponent of a number that has a fraction or an exponent or
both. -/
def floatParts? (cs : List Char) : Option (List Char × List Char × Int) :=
  match Text.cutFirst? 'e' (cs.map Char.toLower) with
  | some (mantissa, e) => (exponent? e).bind fun e => significand? mantissa e
  | none => if '.' ∈ cs then significand? cs 0 else none

/-- Whether a number is so large that the nearest floating-point number is infinity. -/
def isHuge (whole fraction : List Char) (e : Int) : Bool :=
  let n := naturalOf (whole ++ fraction)
  let e := e - (fraction.filter (· ≠ '_')).length
  let digits := (Nat.toDigits 10 n).length + e
  let limit := (Nat.pow 2 54 - 1) * Nat.pow 2 970
  n ≠ 0 && (309 < digits || (digits = 309 && Numeral.Ratio.le ⟨limit, 1⟩ (.scale n 10 e)))

/-- A number with a fraction or an exponent, or one of the two words for other numbers. Without a
minus sign it has to be finite. -/
def isFloat (cs : List Char) : Bool :=
  let body := unsigned cs
  body = "inf".toList || body = "nan".toList ||
    (floatParts? body).any fun p => cs.head? = some '-' || !isHuge p.1 p.2.1 p.2.2

/-- An integer of 64 bits, in decimal with a sign or in a base with a mark. -/
def isInteger (cs : List Char) : Bool :=
  let digits := fun (ds : List Char) => ds.filter (· ≠ '_')
  let fits := fun (base : Nat) (ds : List Char) =>
    (((digits ds).mapM Text.hexValue?).map fun vs => vs.foldl (fun n v => base * n + v) 0).any
      (· < 0x8000000000000000)
  match cs with
  | '0' :: 'x' :: ds => isDigitRun (fun c => (Text.hexValue? c).isSome) ds && fits 16 ds
  | '0' :: 'o' :: ds => isDigitRun (fun c => '0' ≤ c && c ≤ '7') ds && fits 8 ds
  | '0' :: 'b' :: ds => isDigitRun (fun c => c = '0' || c = '1') ds && fits 2 ds
  | _ => isDecimalRun (unsigned cs) && (Numeral.ofChars? (digits cs)).isSome

end RollMarkup.Toml
