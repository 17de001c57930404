import RollMarkup.Json.Number
import RollMarkup.Text.Cut
import RollMarkup.Text.Hex

/-!
# The lexemes of a JSON text
-/

namespace RollMarkup.Json

/-- The smallest parts of a JSON text. A number, a string and a word are values. -/
inductive Lexeme where
  | openList
  | closeList
  | openObject
  | closeObject
  | comma
  | colon
  | value (v : Json)

namespace Lexeme

/-- A part of a string's text: a character, or one half of a pair of surrogates. -/
inductive Unit where
  | char (c : Char)
  | half (n : Nat)

/-- The unit with a number of four hexadecimal digits. -/
def unit? (a b c d : Char) : Option Unit := do
  let high := (← Text.hexValue? a) * 16 + (← Text.hexValue? b)
  let low := (← Text.hexValue? c) * 16 + (← Text.hexValue? d)
  let n := high * 256 + low
  some (if 0xD800 ≤ n ∧ n < 0xE000 then .half n else .char (Char.ofNat n))

/-- The character that a letter behind a backslash stands for. -/
def escaped? (c : Char) : Option Char :=
  [('"', '"'), ('\\', '\\'), ('/', '/'), ('b', '\x08'), ('f', '\x0c'), ('n', '\n'), ('r', '\r'),
   ('t', '\t')].lookup c

/-- The units up to a closing quote, and the text behind it. A control character has to be
escaped. -/
def units? : List Char → Option (List Unit × List Char)
  | [] => none
  | '"' :: cs => some ([], cs)
  | '\\' :: 'u' :: a :: b :: c :: d :: cs =>
    (unit? a b c d).bind fun u => (units? cs).map fun p => (u :: p.1, p.2)
  | '\\' :: c :: cs =>
    (escaped? c).bind fun x => (units? cs).map fun p => (.char x :: p.1, p.2)
  | c :: cs =>
    if c = '\\' ∨ c.toNat < 0x20 then none
    else (units? cs).map fun p => (.char c :: p.1, p.2)

/-- The characters that units stand for; each surrogate needs its other half. -/
def joinUnits? : List Unit → Option (List Char)
  | [] => some []
  | .char c :: us => (joinUnits? us).map (c :: ·)
  | .half high :: .half low :: us =>
    if high < 0xDC00 ∧ 0xDC00 ≤ low then
      (joinUnits? us).map (Char.ofNat (0x10000 + (high - 0xD800) * 0x400 + (low - 0xDC00)) :: ·)
    else none
  | .half _ :: _ => none

/-- The string up to a closing quote, and the text behind it. -/
def string? (cs : List Char) : Option (String × List Char) :=
  (units? cs).bind fun p => (joinUnits? p.1).map fun s => (String.ofList s, p.2)

/-- The text behind the closing quote is shorter than the one in front of it. -/
theorem length_lt_of_units? {cs : List Char} {p : List Unit × List Char} (h : units? cs = some p) :
    p.2.length < cs.length := by
  fun_induction units? cs generalizing p with
  | case1 => cases h
  | case2 cs => cases h; simp
  | case3 a b c d cs ih =>
    obtain ⟨u, _, h⟩ := Option.bind_eq_some_iff.mp h
    obtain ⟨q, hq, rfl⟩ := Option.map_eq_some_iff.mp h
    have := ih hq
    simp only [List.length_cons]
    omega
  | case4 c cs _ ih =>
    obtain ⟨u, _, h⟩ := Option.bind_eq_some_iff.mp h
    obtain ⟨q, hq, rfl⟩ := Option.map_eq_some_iff.mp h
    have := ih hq
    simp only [List.length_cons]
    omega
  | case5 => cases h
  | case6 c cs _ _ _ _ ih =>
    obtain ⟨q, hq, rfl⟩ := Option.map_eq_some_iff.mp h
    have := ih hq
    simp only [List.length_cons]
    omega

/-- The text behind a string is shorter than the one that it was read from. -/
theorem length_lt_of_string? {cs : List Char} {p : String × List Char} (h : string? cs = some p) :
    p.2.length < cs.length := by
  obtain ⟨u, hu, h⟩ := Option.bind_eq_some_iff.mp h
  obtain ⟨s, _, rfl⟩ := Option.map_eq_some_iff.mp h
  exact length_lt_of_units? hu

/-- The characters that may stand between lexemes. -/
def isGap (c : Char) : Bool :=
  c = ' ' || c = '\t' || c = '\n' || c = '\r'

/-- The lexemes that are one character. -/
def punctuation? (c : Char) : Option Lexeme :=
  [('[', openList), (']', closeList), ('\x7b', openObject), ('\x7d', closeObject), (',', comma),
   (':', colon)].lookup c

/-- A character of a number or of a word. -/
def isWordChar (c : Char) : Bool :=
  c.isAlphanum || c = '+' || c = '-' || c = '.'

/-- The value that a word or a number stands for. -/
def word? (cs : List Char) : Option Json :=
  if cs = "null".toList then some .null
  else if cs = "true".toList then some (.bool true)
  else if cs = "false".toList then some (.bool false)
  else number? cs

/-- The lexemes of a text. -/
def ofChars? : List Char → Option (List Lexeme)
  | [] => some []
  | c :: cs =>
    if isGap c then ofChars? cs
    else
      match punctuation? c with
      | some l => (ofChars? cs).map (l :: ·)
      | none =>
        if c = '"' then
          match _h : string? cs with
          | none => none
          | some p => (ofChars? p.2).map (value (.str p.1) :: ·)
        else
          (word? (c :: cs.takeWhile isWordChar)).bind fun v =>
            (ofChars? (cs.dropWhile isWordChar)).map (value v :: ·)
termination_by cs => cs.length
decreasing_by
  · simp
  · simp
  · have := length_lt_of_string? _h
    simp only [List.length_cons]
    omega
  · have := Text.length_dropWhile_le isWordChar cs
    simp only [List.length_cons]
    omega

end Lexeme

end RollMarkup.Json
