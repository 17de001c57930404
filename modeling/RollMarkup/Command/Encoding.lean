import RollMarkup.Command.Basic
import RollMarkup.Json.Basic

/-!
# Commands as JSON

A command is an object with a member for each field that is present, in a fixed order. A list of no
rolls or no dice counts as absent.
-/

namespace RollMarkup

namespace Json

/-- An object of those members that are there. -/
def ofMembers? (ms : List (Option (String × Json))) : Json :=
  object (ms.filterMap id)

/-- A member whose value may be absent. -/
def member? (key : String) (v : Option Json) : Option (String × Json) :=
  v.map (key, ·)

/-- A keyword is a string. -/
def ofWord {α : Type} [Keyword α] (a : α) : Json :=
  str (Keyword.word a)

/-- One value is a string, and several are a list, however many there are. -/
def ofSelection : Selection → Json
  | .one v => str v
  | .many vs => list (vs.map str)

/-- A number is an integer, and a formula a string. -/
def ofQuantity : Quantity → Json
  | .number n => int n.toInt
  | .formula s => str s

/-- A flag is a boolean, a number an integer, and a formula a string. -/
def ofAverage : Average → Json
  | .shown b => bool b
  | .number n => int n.toInt
  | .formula s => str s

/-- A list with at least one item. -/
def ofList? {α : Type} (encode : α → Json) (items : List α) : Option Json :=
  if items.isEmpty then none else some (list (items.map encode))

end Json

open Json

/-- The fields of a check. -/
def Check.toJson (c : Check) : Json :=
  ofMembers?
    [ member? "ability" (c.ability.map str),
      member? "skill" (c.skills.map ofSelection),
      member? "tool" (c.tools.map ofSelection),
      member? "vehicle" (c.vehicle.map str),
      member? "dc" (c.dc.map ofQuantity),
      member? "format" (c.format.map ofWord),
      member? "passive" (c.passive.map bool),
      member? "activity" (c.activity.map str),
      member? "rules" (c.edition.map ofWord) ]

/-- The fields of an attack. -/
def Attack.toJson (a : Attack) : Json :=
  ofMembers?
    [ member? "formula" (a.formula.map ofQuantity),
      member? "activity" (a.activity.map str),
      member? "attackMode" (a.mode.map str),
      member? "format" (a.format.map ofWord),
      member? "rules" (a.edition.map ofWord) ]

/-- The fields of one of several damage rolls; its formula is always there. -/
def DamageRoll.toJson (r : DamageRoll) : Json :=
  ofMembers?
    [ some ("formula", str r.formula),
      member? "type" (r.types.map ofSelection) ]

/-- The fields of a damage roll. -/
def Damage.toJson (d : Damage) : Json :=
  ofMembers?
    [ member? "formula" (d.formula.map str),
      member? "type" (d.types.map ofSelection),
      member? "average" (d.average.map ofAverage),
      member? "activity" (d.activity.map str),
      member? "format" (d.format.map ofWord),
      member? "rolls" (ofList? DamageRoll.toJson d.rolls) ]

/-- The fields of a healing roll. -/
def Heal.toJson (h : Heal) : Json :=
  ofMembers?
    [ member? "formula" (h.formula.map str),
      member? "type" (h.healing.map ofWord),
      member? "average" (h.average.map ofAverage),
      member? "activity" (h.activity.map str),
      member? "format" (h.format.map ofWord) ]

/-- The fields of a saving throw. -/
def Save.toJson (s : Save) : Json :=
  ofMembers?
    [ member? "ability" (s.abilities.map ofSelection),
      member? "dc" (s.dc.map ofQuantity),
      member? "format" (s.format.map ofWord),
      member? "activity" (s.activity.map str) ]

/-- The fields of an item link. -/
def Item.toJson (i : Item) : Json :=
  ofMembers?
    [ member? "itemName" (i.name.map str),
      member? "activity" (i.activity.map str),
      member? "uuid" (i.uuid.map str),
      member? "relativeId" (i.relativeId.map str) ]

/-- The fields of described dice; both are always there. -/
def DescribedDice.toJson (d : DescribedDice) : Json :=
  object [("formula", str d.formula), ("description", str d.description)]

/-- The fields of a dice roll. -/
def DiceRoll.toJson (r : DiceRoll) : Json :=
  ofMembers?
    [ member? "formula" (r.formula.map str),
      member? "mode" (r.audience.map ofWord),
      member? "description" (r.description.map str),
      member? "diceDescriptions" (ofList? DescribedDice.toJson r.dice),
      member? "inline" (r.inlineForm.map ofWord),
      member? "label" (r.label.map str) ]

/-- The fields of a rule link. -/
def RuleLink.toJson (r : RuleLink) : Json :=
  ofMembers?
    [ member? "category" (r.category.map ofWord),
      member? "rule" (r.rule.map str),
      member? "apply" (r.apply.map bool) ]

/-- The fields of a command; its kind is not among them. -/
def Command.toJson : Command → Json
  | check c => c.toJson
  | attack a => a.toJson
  | damage d => d.toJson
  | heal h => h.toJson
  | save s => s.toJson
  | item i => i.toJson
  | roll r => r.toJson
  | link r => r.toJson

end RollMarkup
