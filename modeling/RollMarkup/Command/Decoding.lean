import RollMarkup.Command.Basic
import RollMarkup.Json.Decode

/-!
# Commands from JSON

Each record is decoded from an object; keys that it does not have are passed over. Of several
members that cannot be decoded the one with the least key is reported, and a missing required
member only after them. That is why the fields are decoded in the order of their keys.
-/

namespace RollMarkup

open Json (Members)

/-- Decodes a check; none of its fields is required. -/
def Check.ofMembers (ms : Members) : Decoded Check := do
  let ability ← Json.optional Json.toText (ms.lookup "ability")
  let activity ← Json.optional Json.toText (ms.lookup "activity")
  let dc ← Json.optional Json.toQuantity (ms.lookup "dc")
  let format ← Json.optional Json.toKeyword (ms.lookup "format")
  let passive ← Json.optional Json.toFlag (ms.lookup "passive")
  let edition ← Json.optional Json.toKeyword (ms.lookup "rules")
  let skills ← Json.optional Json.toSelection (ms.lookup "skill")
  let tools ← Json.optional Json.toSelection (ms.lookup "tool")
  let vehicle ← Json.optional Json.toText (ms.lookup "vehicle")
  return { ability, skills, tools, vehicle, dc, format, passive, activity, edition }

/-- Decodes an attack; none of its fields is required. -/
def Attack.ofMembers (ms : Members) : Decoded Attack := do
  let activity ← Json.optional Json.toText (ms.lookup "activity")
  let mode ← Json.optional Json.toText (ms.lookup "attackMode")
  let format ← Json.optional Json.toKeyword (ms.lookup "format")
  let formula ← Json.optional Json.toQuantity (ms.lookup "formula")
  let edition ← Json.optional Json.toKeyword (ms.lookup "rules")
  return { formula, activity, mode, format, edition }

namespace DamageRoll

/-- Decodes a roll; its formula is required. -/
def ofMembers (ms : Members) : Decoded DamageRoll := do
  let formula ← (ms.lookup "formula").mapM Json.toText
  let types ← Json.optional Json.toSelection (ms.lookup "type")
  return { formula := ← Json.required "formula" formula, types }

/-- A roll as the list of its formula and its types. -/
def ofItems (vs : List Json) : Decoded DamageRoll := do
  let formula ← vs[0]?.mapM Json.toText
  let types ← Json.optional Json.toSelection vs[1]?
  match formula with
  | none => throw (.tooShort 0 "DamageRoll" 2)
  | some formula =>
    if 2 < vs.length then throw (.tooLong vs.length)
    return { formula, types }

/-- A roll is an object, or the list of its fields. -/
def ofJson : Json → Decoded DamageRoll
  | .object ms => ofMembers ms
  | .list vs => ofItems vs
  | v => .error (.wrongType v (.record "DamageRoll"))

end DamageRoll

/-- Decodes a damage roll; none of its fields is required. -/
def Damage.ofMembers (ms : Members) : Decoded Damage := do
  let activity ← Json.optional Json.toText (ms.lookup "activity")
  let average ← Json.optional Json.toAverage (ms.lookup "average")
  let format ← Json.optional Json.toKeyword (ms.lookup "format")
  let formula ← Json.optional Json.toText (ms.lookup "formula")
  let rolls ← Json.listOf DamageRoll.ofJson (ms.lookup "rolls")
  let types ← Json.optional Json.toSelection (ms.lookup "type")
  return { formula, types, average, activity, format, rolls }

/-- Decodes a healing roll; none of its fields is required. -/
def Heal.ofMembers (ms : Members) : Decoded Heal := do
  let activity ← Json.optional Json.toText (ms.lookup "activity")
  let average ← Json.optional Json.toAverage (ms.lookup "average")
  let format ← Json.optional Json.toKeyword (ms.lookup "format")
  let formula ← Json.optional Json.toText (ms.lookup "formula")
  let healing ← Json.optional Json.toKeyword (ms.lookup "type")
  return { formula, healing, average, activity, format }

/-- Decodes a saving throw; none of its fields is required. -/
def Save.ofMembers (ms : Members) : Decoded Save := do
  let abilities ← Json.optional Json.toSelection (ms.lookup "ability")
  let activity ← Json.optional Json.toText (ms.lookup "activity")
  let dc ← Json.optional Json.toQuantity (ms.lookup "dc")
  let format ← Json.optional Json.toKeyword (ms.lookup "format")
  return { abilities, dc, format, activity }

/-- Decodes an item link; none of its fields is required. -/
def Item.ofMembers (ms : Members) : Decoded Item := do
  let activity ← Json.optional Json.toText (ms.lookup "activity")
  let name ← Json.optional Json.toText (ms.lookup "itemName")
  let relativeId ← Json.optional Json.toText (ms.lookup "relativeId")
  let uuid ← Json.optional Json.toText (ms.lookup "uuid")
  return { name, activity, uuid, relativeId }

namespace DescribedDice

/-- Decodes described dice; both fields are required, and a missing formula is reported first. -/
def ofMembers (ms : Members) : Decoded DescribedDice := do
  let description ← (ms.lookup "description").mapM Json.toText
  let formula ← (ms.lookup "formula").mapM Json.toText
  return { formula := ← Json.required "formula" formula
           description := ← Json.required "description" description }

/-- Described dice as the list of their formula and their description. -/
def ofItems (vs : List Json) : Decoded DescribedDice := do
  let formula ← vs[0]?.mapM Json.toText
  let description ← vs[1]?.mapM Json.toText
  match formula, description with
  | some formula, some description =>
    if 2 < vs.length then throw (.tooLong vs.length)
    return { formula, description }
  | _, _ => throw (.tooShort vs.length "DiceDescription" 2)

/-- Described dice are an object, or the list of their fields. -/
def ofJson : Json → Decoded DescribedDice
  | .object ms => ofMembers ms
  | .list vs => ofItems vs
  | v => .error (.wrongType v (.record "DiceDescription"))

end DescribedDice

/-- Decodes a dice roll; none of its fields is required. -/
def DiceRoll.ofMembers (ms : Members) : Decoded DiceRoll := do
  let description ← Json.optional Json.toText (ms.lookup "description")
  let dice ← Json.listOf DescribedDice.ofJson (ms.lookup "diceDescriptions")
  let formula ← Json.optional Json.toText (ms.lookup "formula")
  let inlineForm ← Json.optional Json.toKeyword (ms.lookup "inline")
  let label ← Json.optional Json.toText (ms.lookup "label")
  let audience ← Json.optional Json.toKeyword (ms.lookup "mode")
  return { formula, audience, description, dice, inlineForm, label }

/-- Decodes a rule link; none of its fields is required. -/
def RuleLink.ofMembers (ms : Members) : Decoded RuleLink := do
  let apply ← Json.optional Json.toFlag (ms.lookup "apply")
  let category ← Json.optional Json.toKeyword (ms.lookup "category")
  let rule ← Json.optional Json.toText (ms.lookup "rule")
  return { category, rule, apply }

namespace Command

/-- Decodes the command of a kind. -/
def ofMembers (k : Kind) (ms : Members) : Decoded Command :=
  match k with
  | .check | .skill | .tool => (Check.ofMembers ms).map check
  | .attack => (Attack.ofMembers ms).map attack
  | .damage => (Damage.ofMembers ms).map damage
  | .heal => (Heal.ofMembers ms).map heal
  | .save | .concentration => (Save.ofMembers ms).map save
  | .item => (Item.ofMembers ms).map item
  | .roll => (DiceRoll.ofMembers ms).map roll
  | .reference => (RuleLink.ofMembers ms).map link

end Command

end RollMarkup
