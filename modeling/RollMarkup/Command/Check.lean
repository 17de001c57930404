import RollMarkup.Body.Entry
import RollMarkup.Command.Bracket
import RollMarkup.Command.Kind
import RollMarkup.Field.Choice
import RollMarkup.Field.Quantity
import RollMarkup.Field.Selection
import RollMarkup.Vocabulary.Ability
import RollMarkup.Vocabulary.Skill

/-!
# Ability, skill and tool checks

Simple combinations of an ability, skills and a numeric difficulty are written without keys
(`Check.positional?`); every other check has keys. On reading, a token without a key is classified
by what it names.
-/

namespace RollMarkup

/-- A check against an ability, skills or tools. -/
structure Check where
  ability : Option String := none
  skills : Option Selection := none
  tools : Option Selection := none
  vehicle : Option String := none
  dc : Option Quantity := none
  format : Option DisplayFormat := none
  passive : Option Bool := none
  activity : Option String := none
  edition : Option Edition := none
  deriving DecidableEq, Repr

namespace Check

/-! ### Writing -/

/-- A check is written as `check` unless it is asked for as a skill or tool check. -/
def keyword (kind : Kind) : String :=
  match kind with
  | .skill | .tool => Keyword.word kind
  | _ => Keyword.word Kind.check

/-- The canonical name of the ability. -/
def abilityName (c : Check) : Option String :=
  (Text.filled c.ability).map Ability.canonical

/-- The canonical names of the skills. -/
def skillNames (c : Check) : List String :=
  (Selection.filled c.skills).map Skill.canonical

/-- Whether a field is present that a body without keys has no place for. -/
def needsKeys (c : Check) : Bool :=
  Selection.filled c.tools ≠ [] || (Text.filled c.vehicle).isSome || c.format.isSome ||
    c.passive == some true || (Text.filled c.activity).isSome || c.edition.isSome

/-- The body without keys, for the combinations of ability, skills and difficulty that have one. A
number beside a lone ability or a lone skill is left out. -/
def positional? : Option String → List String → Option Quantity → Option (List String)
  | _, _, some (.formula _) => none
  | none, [], none => some []
  | some a, [], _ => some [a]
  | none, [s], _ => some [s]
  | some a, [s], none => some [a, s]
  | none, s :: t :: ss, none => some (s :: t :: ss)
  | none, s :: t :: ss, some (.number n) => some (s :: t :: ss ++ [Numeral.write n])
  | some a, s :: t :: ss, some (.number n) => some (a :: s :: t :: ss ++ [Numeral.write n])
  | _, _, _ => none

/-- The entries of the body with keys, in their fixed order. -/
def entries (c : Check) : List Entry :=
  [ c.abilityName.map (Entry.mk "ability"),
    Entry.ofList? "skill" c.skillNames,
    Entry.ofList? "tool" (Selection.filled c.tools),
    (Text.filled c.vehicle).map (Entry.mk "vehicle"),
    c.dc.map fun q => ⟨"dc", q.toText⟩,
    c.format.map fun f => ⟨"format", Keyword.word f⟩,
    if c.passive = some true then some ⟨"passive", "true"⟩ else none,
    (Text.filled c.activity).map (Entry.mk "activity"),
    c.edition.map fun e => ⟨"rules", Keyword.word e⟩ ].filterMap id

/-- The parts of the body: without keys where that says enough. -/
def parts (c : Check) : List String :=
  match if c.needsKeys then none else positional? c.abilityName c.skillNames c.dc with
  | some ps => ps
  | none => c.entries.map Entry.toToken

/-- The canonical text of a check. -/
def write (kind : Kind) (c : Check) : String :=
  bracketed (keyword kind) c.parts

/-! ### Reading -/

/-- A check that is being read, with the skills and tools found so far. -/
structure Draft extends Check where
  skillList : List String := []
  toolList : List String := []

/-- The value of an entry goes to the field that its key names; an unknown key names none. -/
def Draft.put (d : Draft) : Entry → Draft
  | ⟨"ability", v⟩ => { d with ability := some (Ability.canonical v) }
  | ⟨"skill", v⟩ => { d with skillList := d.skillList ++ (Entry.valueList v).map Skill.canonical }
  | ⟨"tool", v⟩ => { d with toolList := d.toolList ++ Entry.valueList v }
  | ⟨"vehicle", v⟩ => { d with vehicle := some v }
  | ⟨"dc", v⟩ => { d with dc := some (.ofText v) }
  | ⟨"format", v⟩ => { d with format := Keyword.ofWord? v }
  | ⟨"passive", v⟩ => { d with passive := some (v == "true") }
  | ⟨"activity", v⟩ => { d with activity := some v }
  | ⟨"rules", v⟩ => { d with edition := Keyword.ofWord? v }
  | _ => d

/-- A token without a key is an ability, a skill or a difficulty if it can be, and else the name of
a skill, or of a tool in a tool check. Only one ability is kept as such. -/
def Draft.place (kind : Kind) (d : Draft) (token : String) : Draft :=
  match Ability.find? token with
  | some a =>
    if d.ability.isNone then { d with ability := some a.name }
    else { d with skillList := d.skillList ++ [a.name] }
  | none =>
    match Skill.find? token with
    | some s => { d with skillList := d.skillList ++ [s.name] }
    | none =>
      match Numeral.read? token with
      | some n => { d with dc := some (.number n) }
      | none =>
        if kind = .tool then { d with toolList := d.toolList ++ [token] }
        else { d with skillList := d.skillList ++ [token] }

/-- Takes one more token. -/
def Draft.add (kind : Kind) (d : Draft) (token : String) : Draft :=
  match Entry.ofToken? token with
  | some e => d.put e
  | none => d.place kind token

/-- The finished check. -/
def Draft.finish (d : Draft) : Check :=
  { d.toCheck with skills := Selection.ofList? d.skillList, tools := Selection.ofList? d.toolList }

/-- Reads the body of a check. -/
def read (kind : Kind) (body : String) : Check :=
  ((Token.split body).foldl (Draft.add kind) {}).finish

end Check

end RollMarkup
