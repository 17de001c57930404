import RollMarkup.Text.Cut
import RollMarkup.Text.LetterCase

/-!
# Skills
-/

namespace RollMarkup

/-- The eighteen skills of a character. -/
inductive Skill where
  | acrobatics
  | animalHandling
  | arcana
  | athletics
  | deception
  | history
  | insight
  | intimidation
  | investigation
  | medicine
  | nature
  | perception
  | performance
  | persuasion
  | religion
  | sleightOfHand
  | stealth
  | survival
  deriving DecidableEq, Repr

namespace Skill

/-- Every skill, in alphabetical order. -/
def all : List Skill :=
  [.acrobatics, .animalHandling, .arcana, .athletics, .deception, .history, .insight, .intimidation,
   .investigation, .medicine, .nature, .perception, .performance, .persuasion, .religion,
   .sleightOfHand, .stealth, .survival]

/-- The canonical name. -/
def name : Skill → String
  | acrobatics => "acrobatics"
  | animalHandling => "animal-handling"
  | arcana => "arcana"
  | athletics => "athletics"
  | deception => "deception"
  | history => "history"
  | insight => "insight"
  | intimidation => "intimidation"
  | investigation => "investigation"
  | medicine => "medicine"
  | nature => "nature"
  | perception => "perception"
  | performance => "performance"
  | persuasion => "persuasion"
  | religion => "religion"
  | sleightOfHand => "sleight-of-hand"
  | stealth => "stealth"
  | survival => "survival"

/-- The short name used in commands, for the twelve skills that have one. -/
def shortName? : Skill → Option String
  | acrobatics => some "acr"
  | animalHandling => some "ani"
  | arcana => some "arc"
  | athletics => some "ath"
  | deception => some "dec"
  | history => some "his"
  | insight => some "ins"
  | intimidation => some "itm"
  | investigation => some "inv"
  | medicine => some "med"
  | nature => some "nat"
  | perception => some "prc"
  | performance | persuasion | religion | sleightOfHand | stealth | survival => none

/-- The skill with this short or full name, in any case. -/
def find? (s : String) : Option Skill :=
  (all.find? (·.shortName? == some (Text.lower s))).or (all.find? (·.name == Text.lower s))

/-- The canonical name of the skill that `s` names; any other text stays as it is. -/
def canonical (s : String) : String :=
  ((find? s).map name).getD s

/-- The canonical names of the listed skills with one space between neighbours. -/
def canonicalAll (names : List String) : String :=
  Text.spaced (names.map canonical)

/-- Full names count in lower case only, short names in any case. -/
def isListed (s : String) : Bool :=
  all.any (·.name == s) || all.any (·.shortName? == some (Text.lower s))

end Skill

end RollMarkup
