import RollMarkup.Body.Entry
import RollMarkup.Command.Bracket
import RollMarkup.Command.Kind
import RollMarkup.Field.Choice
import RollMarkup.Field.Quantity
import RollMarkup.Field.Selection
import RollMarkup.Vocabulary.Ability

/-!
# Saving throws

Abilities alone, or abilities and a numeric difficulty, are written without keys; every other saving
throw has keys.
-/

namespace RollMarkup

/-- A saving throw, or one to keep concentration. -/
structure Save where
  abilities : Option Selection := none
  dc : Option Quantity := none
  format : Option DisplayFormat := none
  activity : Option String := none
  deriving DecidableEq, Repr

namespace Save

/-! ### Writing -/

/-- A saving throw is written as `save` unless it is asked for as one of concentration. -/
def keyword (kind : Kind) : String :=
  match kind with
  | .concentration => Keyword.word kind
  | _ => Keyword.word Kind.save

/-- The canonical names of the abilities. -/
def abilityNames (s : Save) : List String :=
  (Selection.filled s.abilities).map Ability.canonical

/-- The entries of the body with keys, in their fixed order. -/
def entries (s : Save) : List Entry :=
  [ Entry.ofList? "ability" s.abilityNames,
    s.dc.map fun q => ⟨"dc", q.toText⟩,
    s.format.map fun f => ⟨"format", Keyword.word f⟩,
    (Text.filled s.activity).map (Entry.mk "activity") ].filterMap id

/-- The body without keys: abilities, and behind at least one of them a number. -/
def positional? (s : Save) : Option (List String) :=
  if s.format.isSome || (Text.filled s.activity).isSome then none
  else
    match s.dc, s.abilityNames with
    | none, names => some names
    | some (.number n), name :: names => some (name :: names ++ [Numeral.write n])
    | _, _ => none

/-- The parts of the body: without keys where that says enough. -/
def parts (s : Save) : List String :=
  match s.positional? with
  | some ps => ps
  | none => s.entries.map Entry.toToken

/-- The canonical text of a saving throw. -/
def write (kind : Kind) (s : Save) : String :=
  bracketed (keyword kind) s.parts

/-! ### Reading -/

/-- A saving throw that is being read, with the abilities found so far. -/
structure Draft extends Save where
  abilityList : List String := []

/-- The value of an entry goes to the field that its key names; an unknown key names none. -/
def Draft.put (d : Draft) : Entry → Draft
  | ⟨"ability", v⟩ =>
    { d with abilityList := d.abilityList ++ (Entry.valueList v).map Ability.canonical }
  | ⟨"dc", v⟩ => { d with dc := some (.ofText v) }
  | ⟨"format", v⟩ => { d with format := Keyword.ofWord? v }
  | ⟨"activity", v⟩ => { d with activity := some v }
  | _ => d

/-- A token without a key is an ability or a difficulty if it can be, and else the name of a house
ability. -/
def Draft.place (d : Draft) (token : String) : Draft :=
  match Ability.find? token with
  | some a => { d with abilityList := d.abilityList ++ [a.name] }
  | none =>
    match Numeral.read? token with
    | some n => { d with dc := some (.number n) }
    | none => { d with abilityList := d.abilityList ++ [token] }

/-- Takes one more token. -/
def Draft.add (d : Draft) (token : String) : Draft :=
  match Entry.ofToken? token with
  | some e => d.put e
  | none => d.place token

/-- The finished saving throw. -/
def Draft.finish (d : Draft) : Save :=
  { d.toSave with abilities := Selection.ofList? d.abilityList }

/-- Reads the body of a saving throw. -/
def read (body : String) : Save :=
  ((Token.split body).foldl Draft.add {}).finish

end Save

end RollMarkup
