import RollMarkup.Command.Encoding
import RollMarkup.Document.House
import RollMarkup.Document.Occurrence

/-!
# Occurrences and house rules as JSON
-/

namespace RollMarkup

/-- An occurrence with its kind, its command and its place. -/
def Occurrence.toJson (o : Occurrence) : Json :=
  .object
    [ ("kind", Json.ofWord o.kind),
      ("options", o.command.toJson),
      ("originalText", .str o.text),
      ("start", .int o.start),
      ("end", .int o.stop) ]

/-- House rules with all of their fields. -/
def House.toJson (h : House) : Json :=
  .object
    [ ("house_skills", .list (h.skills.map .str)),
      ("house_tools", .list (h.tools.map .str)),
      ("house_abilities", .list (h.abilities.map .str)),
      ("deny_noncanonical", .bool h.strict) ]

end RollMarkup
