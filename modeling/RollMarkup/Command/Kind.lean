import RollMarkup.Vocabulary.Keyword

/-!
# Kinds of commands
-/

namespace RollMarkup

/-- What a command does. -/
inductive Kind where
  | check
  | skill
  | tool
  | attack
  | damage
  | heal
  | save
  | concentration
  | item
  | roll
  | reference
  deriving DecidableEq, Repr

instance : Keyword Kind where
  all := [.check, .skill, .tool, .attack, .damage, .heal, .save, .concentration, .item, .roll,
    .reference]
  word
    | .check => "check"
    | .skill => "skill"
    | .tool => "tool"
    | .attack => "attack"
    | .damage => "damage"
    | .heal => "heal"
    | .save => "save"
    | .concentration => "concentration"
    | .item => "item"
    | .roll => "roll"
    | .reference => "reference"

end RollMarkup
