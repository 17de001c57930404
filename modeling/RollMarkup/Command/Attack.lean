import RollMarkup.Body.Entry
import RollMarkup.Command.Bracket
import RollMarkup.Field.Choice
import RollMarkup.Field.Quantity

/-!
# Attacks

An attack is written without keys where it is a lone format, a lone formula with a sign, or a
formula with a mode; every other one has keys. On reading, the words without a key that are no
format and no mode make up the formula.
-/

namespace RollMarkup

/-- An attack roll. -/
structure Attack where
  formula : Option Quantity := none
  activity : Option String := none
  mode : Option String := none
  format : Option DisplayFormat := none
  edition : Option Edition := none
  deriving DecidableEq, Repr

namespace Attack

/-- The attack modes that are known without a key. -/
def modes : List String :=
  ["oneHanded", "twoHanded", "offhand", "ranged", "thrown", "thrownOffhand"]

/-! ### Writing -/

/-- Whether a formula begins with a sign. -/
def hasSign (text : String) : Bool :=
  match text.toList with
  | '+' :: _ | '-' :: _ => true
  | _ => false

/-- The formula without a plus sign in front of it. -/
def withoutPlus (text : String) : String :=
  match text.toList with
  | '+' :: cs => String.ofList cs
  | _ => text

/-- The text of the formula; numbers always have a sign. -/
def writtenFormula (a : Attack) : Option String :=
  Text.filled (a.formula.map Quantity.toSignedText)

/-- The parts of a body with keys. A formula with a sign needs no key. -/
def keyedParts (a : Attack) : List String :=
  [ a.writtenFormula.map fun f =>
      if hasSign f then Token.ofValue f else (Entry.mk "formula" f).toToken,
    (Text.filled a.activity).map fun v => (Entry.mk "activity" v).toToken,
    (Text.filled a.mode).map fun v => (Entry.mk "attackMode" v).toToken,
    a.format.map fun f => (Entry.mk "format" (Keyword.word f)).toToken,
    a.edition.map fun e => (Entry.mk "rules" (Keyword.word e)).toToken ].filterMap id

/-- The parts of the body. A lone format, a lone formula with a sign, and a formula with a mode are
written without keys; beside a mode a formula loses its plus sign. -/
def parts (a : Attack) : List String :=
  match a.writtenFormula, Text.filled a.activity, Text.filled a.mode, a.format, a.edition with
  | none, none, none, none, none => []
  | none, none, none, some format, none => [Keyword.word format]
  | some f, none, some mode, none, none => [withoutPlus f, mode]
  | some f, none, none, none, none => if hasSign f then [f] else a.keyedParts
  | _, _, _, _, _ => a.keyedParts

/-- The canonical text of an attack. -/
def write (a : Attack) : String :=
  bracketed "attack" a.parts

/-! ### Reading -/

/-- An attack that is being read, with the words of its formula found so far. -/
structure Draft extends Attack where
  words : List String := []

/-- The value of an entry goes to the field that its key names; an unknown key names none. -/
def Draft.put (d : Draft) : Entry → Draft
  | ⟨"formula", v⟩ => { d with formula := some (.ofText v) }
  | ⟨"activity", v⟩ => { d with activity := some v }
  | ⟨"attackMode", v⟩ => { d with mode := some v }
  | ⟨"format", v⟩ => { d with format := Keyword.ofWord? v }
  | ⟨"rules", v⟩ => { d with edition := Keyword.ofWord? v }
  | _ => d

/-- A token without a key is a format or a mode if it is known as one, and else part of the
formula. -/
def Draft.place (d : Draft) (token : String) : Draft :=
  match (Keyword.ofWord? token : Option DisplayFormat) with
  | some f => { d with format := some f }
  | none =>
    if token ∈ modes then { d with mode := some token }
    else { d with words := d.words ++ [Token.toValue token] }

/-- Takes one more token. -/
def Draft.add (d : Draft) (token : String) : Draft :=
  match Entry.ofToken? token with
  | some e => d.put e
  | none => d.place token

/-- The finished attack. Words without a key make up the formula and replace one given by key. -/
def Draft.finish (d : Draft) : Attack :=
  if d.words = [] then d.toAttack
  else { d.toAttack with formula := some (.ofText (Text.spaced d.words)) }

/-- Reads the body of an attack. -/
def read (body : String) : Attack :=
  ((Token.split body).foldl Draft.add {}).finish

end Attack

end RollMarkup
