import RollMarkup.Vocabulary.Ability
import RollMarkup.Vocabulary.Keyword
import RollMarkup.Vocabulary.Skill
import RollMarkup.Text.Blank

/-!
# Rule categories

The categories a rule link may point into, the entries of each, and the search for the category of
a bare rule name. Names are compared without regard to case, surrounding blanks, or the difference
between a space and a hyphen.
-/

namespace RollMarkup

/-- The kinds of rules that a rule link may name. -/
inductive Category where
  | ability
  | skill
  | condition
  | creatureType
  | damageType
  | areaOfEffect
  | spellComponent
  | spellSchool
  | otherRuleset
  /-- Any rule at all: a category without entries. -/
  | rule
  deriving DecidableEq, Repr

namespace Category

/-- The word that names the category in a rule link. -/
def key : Category → String
  | ability => "ability"
  | skill => "skill"
  | condition => "condition"
  | creatureType => "creatureType"
  | damageType => "damageType"
  | areaOfEffect => "areaOfEffect"
  | spellComponent => "spellComponent"
  | spellSchool => "spellSchool"
  | otherRuleset => "otherRuleset"
  | rule => "rule"

instance : Keyword Category where
  all := [.ability, .skill, .condition, .creatureType, .damageType, .areaOfEffect, .spellComponent,
    .spellSchool, .otherRuleset, .rule]
  word := key

/-- The order in which a bare rule name is looked for. -/
def searchOrder : List Category :=
  [.condition, .ability, .skill, .damageType, .creatureType, .spellSchool, .areaOfEffect,
   .spellComponent, .otherRuleset]

/-- The canonical names in a category. -/
def names : Category → List String
  | ability => Ability.all.map Ability.name
  | skill => Skill.all.map Skill.name
  | condition =>
    ["blinded", "charmed", "deafened", "exhaustion", "frightened", "grappled", "incapacitated",
     "invisible", "paralyzed", "petrified", "poisoned", "prone", "restrained", "stunned",
     "unconscious"]
  | creatureType =>
    ["aberration", "beast", "celestial", "construct", "dragon", "elemental", "fey", "fiend",
     "giant", "humanoid", "monstrosity", "ooze", "plant", "undead"]
  | damageType =>
    ["acid", "bludgeoning", "cold", "fire", "force", "lightning", "necrotic", "piercing",
     "poison", "psychic", "radiant", "slashing", "thunder"]
  | areaOfEffect =>
    ["cone", "cube", "cylinder", "emanation", "line", "sphere"]
  | spellComponent =>
    ["verbal", "somatic", "material", "concentration", "ritual"]
  | spellSchool =>
    ["abjuration", "conjuration", "divination", "enchantment", "evocation", "illusion",
     "necromancy", "transmutation"]
  | otherRuleset =>
    ["advantage", "disadvantage", "inspiration", "cover", "half-cover", "three-quarters-cover",
     "total-cover", "difficult-terrain", "surprise", "initiative", "opportunity-attack",
     "resistance", "vulnerability", "immunity", "temporary-hit-points"]
  | rule => []

/-- The short names in a category, each with the entry it stands for. -/
def shortNames : Category → List (String × String)
  | ability => Ability.all.map fun a => (a.shortName, a.name)
  | skill =>
    [("acr", "acrobatics"), ("ani", "animal-handling"), ("arc", "arcana"), ("ath", "athletics"),
     ("dec", "deception"), ("his", "history"), ("ins", "insight"), ("itm", "intimidation"),
     ("inv", "investigation"), ("med", "medicine"), ("nat", "nature"), ("prc", "perception"),
     ("prf", "performance"), ("per", "persuasion"), ("rel", "religion"),
     ("slt", "sleight-of-hand"), ("ste", "stealth"), ("sur", "survival")]
  | spellSchool =>
    [("abj", "abjuration"), ("con", "conjuration"), ("div", "divination"),
     ("enc", "enchantment"), ("evo", "evocation"), ("ill", "illusion"), ("nec", "necromancy"),
     ("trs", "transmutation")]
  | _ => []

/-- A rule name as it is compared: trimmed, in lower case, with hyphens for spaces. -/
def comparable (s : String) : String :=
  String.ofList ((Text.trim s.toList).map fun c => if c = ' ' then '-' else Text.lowerChar c)

/-- The entry of the category that `s` names, by its short name first. -/
def resolve? (c : Category) (s : String) : Option String :=
  (c.shortNames.lookup (comparable s)).or (c.names.find? (· == comparable s))

/-- The entry of the category that `s` names; any other text stays as it is. -/
def canonical (c : Category) (s : String) : String :=
  (c.resolve? s).getD s

/-- The first category in search order that has an entry for `s`, with that entry. -/
def search? (s : String) : Option (Category × String) :=
  searchOrder.findSome? fun c => (c.resolve? s).map fun entry => (c, entry)

end Category

end RollMarkup
