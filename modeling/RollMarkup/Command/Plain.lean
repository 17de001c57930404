import RollMarkup.Command.Basic

/-!
# Commands from a plain text or number

A text or a number may stand for a whole command. It is written into the body as it is, except that
an attack shows the sign of a number and has an older form for a bare ability.
-/

namespace RollMarkup

/-- A text or a number in place of a command. -/
inductive Plain where
  | text (s : String)
  | number (n : Int64)
  deriving DecidableEq, Repr

namespace Plain

/-- The text, or the digits of the number. -/
def toText : Plain → String
  | text s => s
  | number n => Numeral.write n

/-- The text of the attack command that a plain value stands for. -/
def writeAttack : Plain → String
  | text s =>
    if Ability.isListed s then "@attack[" ++ Ability.canonical s ++ "]"
    else bracketed "attack" [s]
  | number n => bracketed "attack" [Numeral.writeSigned n]

/-- The text of the command of a kind that a plain value stands for. -/
def write (k : Kind) (p : Plain) : String :=
  match k with
  | .attack => p.writeAttack
  | .reference => RuleLink.enclosed p.toText
  | _ => bracketed (Keyword.word k) [p.toText]

/-- The text of the check that a plain value stands for. -/
def writeCheck (k : Kind) (p : Plain) : String :=
  bracketed (Check.keyword k) [p.toText]

end Plain

end RollMarkup
