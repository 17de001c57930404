import RollMarkup.Command.Attack
import RollMarkup.Command.Check
import RollMarkup.Command.Damage
import RollMarkup.Command.DiceRoll
import RollMarkup.Command.Heal
import RollMarkup.Command.Item
import RollMarkup.Command.RuleLink
import RollMarkup.Command.Save

/-!
# Commands

A command of any kind, its canonical text, and the reading of its body.
-/

namespace RollMarkup

/-- A command: checks of three kinds share one form, and saving throws of two kinds another. -/
inductive Command where
  | check (c : Check)
  | attack (a : Attack)
  | damage (d : Damage)
  | heal (h : Heal)
  | save (s : Save)
  | item (i : Item)
  | roll (r : DiceRoll)
  | link (r : RuleLink)
  deriving DecidableEq, Repr

namespace Command

/-- The kind under which a command is written unless another one is asked for. -/
def kind : Command → Kind
  | check _ => .check
  | attack _ => .attack
  | damage _ => .damage
  | heal _ => .heal
  | save _ => .save
  | item _ => .item
  | roll _ => .roll
  | link _ => .reference

/-- The command of a kind with every field absent. -/
def empty : Kind → Command
  | .check | .skill | .tool => check {}
  | .attack => attack {}
  | .damage => damage {}
  | .heal => heal {}
  | .save | .concentration => save {}
  | .item => item {}
  | .roll => roll {}
  | .reference => link {}

/-- Whether a command can be written under a kind. -/
def fits (c : Command) (k : Kind) : Bool :=
  (empty k).kind = c.kind

/-- The canonical text of a command. A kind that the command does not accept counts for nothing. -/
def write (k : Kind) : Command → String
  | check c => c.write k
  | attack a => a.write
  | damage d => d.write
  | heal h => h.write
  | save s => s.write k
  | item i => i.write
  | roll r => r.write
  | link r => r.write

/-- Reads the body of a command. Only a dice roll has use for a label. -/
def read (k : Kind) (label : Option String) (body : String) : Command :=
  match k with
  | .check | .skill | .tool => check (Check.read k body)
  | .attack => attack (Attack.read body)
  | .damage => damage (Damage.read body)
  | .heal => heal (Heal.read body)
  | .save | .concentration => save (Save.read body)
  | .item => item (Item.read body)
  | .roll => roll (DiceRoll.read none label body)
  | .reference => link (RuleLink.read body)

end Command

end RollMarkup
