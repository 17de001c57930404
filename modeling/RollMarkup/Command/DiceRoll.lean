import RollMarkup.Command.Bracket
import RollMarkup.Field.Choice
import RollMarkup.Text.Blank

/-!
# Dice rolls

A roll stands in the chat under a keyword for its audience, or inside running text with a label. Its
body is a formula, and a description behind a `#`.
-/

namespace RollMarkup

/-- A part of a dice formula with a text of its own. -/
structure DescribedDice where
  formula : String
  description : String
  deriving DecidableEq, Repr

/-- A roll of dice, in the chat or inside running text. -/
structure DiceRoll where
  formula : Option String := none
  audience : Option Audience := none
  description : Option String := none
  dice : List DescribedDice := []
  inlineForm : Option InlineForm := none
  label : Option String := none
  deriving DecidableEq, Repr

/-! ### Writing -/

/-- The formula with its description in brackets. -/
def DescribedDice.text (d : DescribedDice) : String :=
  if d.description = "" then d.formula else d.formula ++ "[" ++ d.description ++ "]"

namespace DiceRoll

/-- The sum of the described dice, and the formula where there are none. -/
def diceText (r : DiceRoll) : String :=
  if r.dice = [] then r.formula.getD "" else "+".intercalate (r.dice.map DescribedDice.text)

/-- The label in braces behind a roll inside running text. -/
def labelText (r : DiceRoll) : String :=
  match Text.filled r.label with
  | some label => "\x7b" ++ label ++ "\x7d"
  | none => ""

/-- The keyword of a roll in the chat. -/
def keyword (audience : Option Audience) : String :=
  (audience.map Audience.keyword).getD "roll"

/-- The text of a roll. Only a roll inside running text has a label, and only one in the chat has an
audience and a description. -/
def write (r : DiceRoll) : String :=
  match r.inlineForm with
  | some .immediate => "[[" ++ r.diceText ++ "]]" ++ r.labelText
  | some .deferred => bracketed "roll" [r.diceText] ++ r.labelText
  | none =>
    bracketed (keyword r.audience)
      (r.diceText :: ((Text.filled r.description).map ("# " ++ ·)).toList)

/-! ### Reading -/

/-- The trimmed text, unless nothing is left of it. -/
def trimmed? (cs : List Char) : Option String :=
  Text.filled? (String.ofList (Text.trim cs))

/-- Reads the formula before the first `#` and the description behind it. A label means a roll
inside running text. -/
def read (audience : Option Audience) (label : Option String) (body : String) : DiceRoll :=
  let cut := (Text.cutFirst? '#' body.toList).getD (body.toList, [])
  { formula := trimmed? cut.1
    description := trimmed? cut.2
    audience
    inlineForm := label.map fun _ => .deferred
    label := Text.filled label }

end DiceRoll

end RollMarkup
