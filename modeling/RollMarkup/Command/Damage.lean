import RollMarkup.Body.Suffix
import RollMarkup.Command.Bracket
import RollMarkup.Field.Selection
import RollMarkup.Text.DecimalDigit
import RollMarkup.Vocabulary.Category

/-!
# Damage

A damage body has keys if its first token has one. A body without keys is a formula followed by
damage types, or several such rolls with ampersands between them, and may end in settings. Where the
formula ends and the types begin is told by the look of the tokens (`continuesFormula`), so that a
house type needs no declaration.
-/

namespace RollMarkup

/-- One of several damage rolls made together. -/
structure DamageRoll where
  formula : String
  types : Option Selection := none
  deriving DecidableEq, Repr

/-- A damage roll, or several made together. -/
structure Damage where
  formula : Option String := none
  types : Option Selection := none
  average : Option Average := none
  activity : Option String := none
  format : Option DisplayFormat := none
  rolls : List DamageRoll := []
  deriving DecidableEq, Repr

/-! ### Writing -/

/-- The formula of a roll and then its types, with spaces between them. -/
def DamageRoll.text (r : DamageRoll) : String :=
  Text.spaced ((r.formula :: Selection.filled r.types).filter (· ≠ ""))

namespace Damage

/-- The entries of the body with keys, in their fixed order. -/
def entries (d : Damage) : List Entry :=
  [ (Text.filled d.formula).map (Entry.mk "formula"),
    Entry.ofList? "type" (Selection.filled d.types),
    Average.entry? d.average,
    (Text.filled d.activity).map (Entry.mk "activity"),
    d.format.map fun f => ⟨"format", Keyword.word f⟩ ].filterMap id

/-- Whether a field is present that a body without keys has no place for. -/
def needsKeys (d : Damage) : Bool :=
  (Text.filled d.activity).isSome || d.format.isSome || d.average.any Average.replacesComputed

/-- The parts of the body. Several rolls stand in place of the single one. -/
def parts (d : Damage) : List String :=
  if d.rolls ≠ [] then
    [" & ".intercalate (d.rolls.map DamageRoll.text)] ++ Average.positional d.average ++
      ([ d.format.map fun f => ⟨"format", Keyword.word f⟩,
         (Text.filled d.activity).map (Entry.mk "activity") ].filterMap id).map Entry.toToken
  else if d.needsKeys then d.entries.map Entry.toToken
  else (Text.filled d.formula).toList ++ Selection.filled d.types ++ Average.positional d.average

/-- The canonical text of a damage roll. -/
def write (d : Damage) : String :=
  bracketed "damage" d.parts

/-! ### Reading -/

/-- The value of an entry goes to the field that its key names; an unknown key names none. -/
def put (d : Damage) : Entry → Damage
  | ⟨"formula", v⟩ => { d with formula := some v }
  | ⟨"type", v⟩ => { d with types := Selection.ofList? (Entry.valueList v) }
  | ⟨"average", v⟩ => { d with average := some (.ofText v) }
  | ⟨"activity", v⟩ => { d with activity := some v }
  | ⟨"format", v⟩ => { d with format := Keyword.ofWord? v }
  | _ => d

/-- In a body with keys, `average` is the one token without a key that counts. -/
def add (d : Damage) (token : String) : Damage :=
  match Entry.ofToken? token with
  | some e => d.put e
  | none => if token = "average" then { d with average := some (.shown true) } else d

/-- A damage type, or a word for healing. -/
def isType (token : String) : Bool :=
  (Category.damageType.resolve? token).isSome || (Keyword.ofWord? token : Option Healing).isSome

/-- Whether a token goes on with a formula: it begins as a number, a die, a reference or an operator
does, or it holds a parenthesis. -/
def continuesFormula (token : String) : Bool :=
  token.toList.any (fun c => c = '(' || c = ')') ||
    match token.toList with
    | [] => false
    | c :: cs =>
      Text.isDecimalDigit c || ['@', '(', '+', '-', '*', '/', '%'].contains c ||
        (c = 'd' && (cs.head?.any fun next => Text.isDecimalDigit next || next = '%'))

/-- The tokens of the formula and those of the types. The first token is the formula unless it is a
known type; terms that go on with it belong to it, and the rest are types, known or not. -/
def cutFormula : List String → List String × List String
  | [] => ([], [])
  | t :: ts =>
    if isType t then ([], t :: ts)
    else (t :: ts.takeWhile continuesFormula, ts.dropWhile continuesFormula)

/-- Whether a body holds several rolls: an ampersand with a space on either side. -/
def hasSeveral : List Char → Bool
  | [] => false
  | c :: cs => [' ', '&', ' '].isPrefixOf (c :: cs) || hasSeveral cs

/-- One of several rolls. -/
def rollOf (tokens : List String) : DamageRoll :=
  let cut := cutFormula tokens
  ⟨Text.spaced cut.1, Selection.ofList? cut.2⟩

/-- A body whose first token has no key: settings at the end, and one roll or several before
them. -/
def readPositional (body : String) (tokens : List String) : Damage :=
  let parts := Suffix.cut tokens
  let d : Damage :=
    { average := parts.2.average, format := parts.2.format, activity := parts.2.activity }
  if hasSeveral body.toList then
    { d with rolls := ((parts.1.splitOn "&").filter (· ≠ [])).map rollOf }
  else
    let cut := cutFormula parts.1
    { d with formula := Text.filled? (Text.spaced cut.1), types := Selection.ofList? cut.2 }

/-- Reads a body; the first token tells whether it has keys. -/
def read (body : String) : Damage :=
  match Token.split body with
  | [] => {}
  | t :: ts =>
    if (Entry.ofToken? t).isSome then (t :: ts).foldl add {}
    else readPositional body (t :: ts)

end Damage

end RollMarkup
