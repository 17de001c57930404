import RollMarkup.Text.LetterCase

/-!
# Abilities
-/

namespace RollMarkup

/-- The six abilities of a character. -/
inductive Ability where
  | strength
  | dexterity
  | constitution
  | intelligence
  | wisdom
  | charisma
  deriving DecidableEq, Repr

namespace Ability

/-- Every ability, in the order in which sheets list them. -/
def all : List Ability :=
  [.strength, .dexterity, .constitution, .intelligence, .wisdom, .charisma]

/-- The canonical name. -/
def name : Ability → String
  | strength => "strength"
  | dexterity => "dexterity"
  | constitution => "constitution"
  | intelligence => "intelligence"
  | wisdom => "wisdom"
  | charisma => "charisma"

/-- The short name. -/
def shortName : Ability → String
  | strength => "str"
  | dexterity => "dex"
  | constitution => "con"
  | intelligence => "int"
  | wisdom => "wis"
  | charisma => "cha"

/-- The ability with this short or full name, in any case. -/
def find? (s : String) : Option Ability :=
  (all.find? (·.shortName == Text.lower s)).or (all.find? (·.name == Text.lower s))

/-- The canonical name of the ability that `s` names; any other text stays as it is. -/
def canonical (s : String) : String :=
  ((find? s).map name).getD s

/-- Full names count in lower case only, short names in any case. -/
def isListed (s : String) : Bool :=
  all.any (·.name == s) || all.any (·.shortName == Text.lower s)

end Ability

end RollMarkup
