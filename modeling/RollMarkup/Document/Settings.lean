import RollMarkup.Document.House
import RollMarkup.Json.Decode
import RollMarkup.Toml.Reader

/-!
# House rules from a file

House rules are a TOML document or a JSON object with four keys, each of which may be left out.
-/

namespace RollMarkup.House

/-! ### From JSON -/

/-- House rules as the list of their four fields; fields at the end may be left out. -/
def ofItems (vs : List Json) : Decoded House := do
  let texts (v : Option Json) : Decoded (List String) := Json.listOf Json.toText v
  let skills ← texts vs[0]?
  let tools ← texts vs[1]?
  let abilities ← texts vs[2]?
  let deny ← vs[3]?.mapM Json.toFlag
  if 4 < vs.length then throw (.tooLong vs.length)
  return { skills, tools, abilities, strict := deny.getD false }

/-- The fields are decoded in the order of their keys, so that the error for the least key is the
one that is reported. -/
def ofMembers (ms : Json.Members) : Decoded House := do
  let deny ← (ms.lookup "deny_noncanonical").mapM Json.toFlag
  let abilities ← Json.listOf Json.toText (ms.lookup "house_abilities")
  let skills ← Json.listOf Json.toText (ms.lookup "house_skills")
  let tools ← Json.listOf Json.toText (ms.lookup "house_tools")
  return { skills, tools, abilities, strict := deny.getD false }

/-- House rules are an object, or the list of their fields. -/
def ofJson : Json → Decoded House
  | .object ms => ofMembers ms
  | .list vs => ofItems vs
  | v => .error (.wrongType v (.record "EnricherConfig"))

/-! ### From TOML -/

/-- The string that a value is. -/
def string? : Toml.Value → Option String
  | .string s => some s
  | _ => none

/-- A list of strings, empty where there is none. -/
def strings? : Option Toml.Value → Option (List String)
  | none => some []
  | some (.list vs) => vs.mapM string?
  | some _ => none

/-- A boolean, false where there is none. -/
def flag? : Option Toml.Value → Option Bool
  | none => some false
  | some (.boolean b) => some b
  | some _ => none

/-- The house rules in the top table of a document; other keys are passed over. -/
def ofToml? (ms : Toml.Members) : Option House := do
  let skills ← strings? (ms.lookup "house_skills")
  let tools ← strings? (ms.lookup "house_tools")
  let abilities ← strings? (ms.lookup "house_abilities")
  let strict ← flag? (ms.lookup "deny_noncanonical")
  return { skills, tools, abilities, strict }

/-- Why house rules cannot be taken from a file. -/
inductive LoadError where
  /-- There is no such file, or it does not hold text. -/
  | read
  /-- Its text is not a TOML document of house rules. -/
  | parse
  deriving DecidableEq, Repr

/-- The house rules in a file; `none` stands for a file that cannot be read. -/
def load (content : Option ByteArray) : Except LoadError House :=
  match content.bind String.fromUTF8? with
  | none => .error .read
  | some text =>
    match (Toml.read? text).bind ofToml? with
    | none => .error .parse
    | some h => .ok h

/-- The house rules in a file, and none where they cannot be taken from it. -/
def loadOrDefault (content : Option ByteArray) : House :=
  match load content with
  | .ok h => h
  | .error _ => {}

end RollMarkup.House
