import RollMarkup.Body.Suffix
import RollMarkup.Command.Bracket

/-!
# Healing

A heal body has keys if its first token has one. A body without keys is a formula with at most one
word for what is restored, and may end in settings. Ordinary healing is only ever named in a body
with keys; temporary hit points have a short word without keys and a long one with them.
-/

namespace RollMarkup

/-- A healing roll. -/
structure Heal where
  formula : Option String := none
  healing : Option Healing := none
  average : Option Average := none
  activity : Option String := none
  format : Option DisplayFormat := none
  deriving DecidableEq, Repr

namespace Heal

/-! ### Writing -/

/-- The word for what is restored in a body with keys. -/
def keyedWord (h : Healing) : String :=
  Keyword.word (if h.isTemporary then Healing.temporaryHitPoints else Healing.hitPoints)

/-- The entries of the body with keys, in their fixed order. -/
def entries (h : Heal) : List Entry :=
  [ (Text.filled h.formula).map (Entry.mk "formula"),
    h.healing.map fun k => ⟨"type", keyedWord k⟩,
    Average.entry? h.average,
    (Text.filled h.activity).map (Entry.mk "activity"),
    h.format.map fun f => ⟨"format", Keyword.word f⟩ ].filterMap id

/-- Whether a field is present that a body without keys has no place for. -/
def needsKeys (h : Heal) : Bool :=
  (Text.filled h.activity).isSome || h.format.isSome || h.average.any Average.replacesComputed ||
    h.healing == some .hitPoints

/-- The parts of the body. Both words for temporary hit points are written as one. -/
def parts (h : Heal) : List String :=
  if h.needsKeys then h.entries.map Entry.toToken
  else
    (Text.filled h.formula).toList ++
      (if h.healing.any Healing.isTemporary then [Keyword.word Healing.temporary] else []) ++
      Average.positional h.average

/-- The canonical text of a healing roll. -/
def write (h : Heal) : String :=
  bracketed "heal" h.parts

/-! ### Reading -/

/-- The value of an entry goes to the field that its key names; an unknown key names none. -/
def put (h : Heal) : Entry → Heal
  | ⟨"formula", v⟩ => { h with formula := some v }
  | ⟨"type", v⟩ => { h with healing := Keyword.ofWord? v }
  | ⟨"average", v⟩ => { h with average := some (.ofText v) }
  | ⟨"activity", v⟩ => { h with activity := some v }
  | ⟨"format", v⟩ => { h with format := Keyword.ofWord? v }
  | _ => h

/-- In a body with keys, `average` is the one token without a key that counts. -/
def add (h : Heal) (token : String) : Heal :=
  match Entry.ofToken? token with
  | some e => h.put e
  | none => if token = "average" then { h with average := some (.shown true) } else h

/-- The token as a word for what is restored. -/
def healing? (token : String) : Option Healing :=
  Keyword.ofWord? token

/-- A body whose first token has no key: settings at the end, and before them the words of the
formula with what is restored anywhere among them; the last such word counts. -/
def readPositional (tokens : List String) : Heal :=
  let parts := Suffix.cut tokens
  let words := parts.1.filter fun t => (healing? t).isNone
  { formula := if words = [] then none else some (Text.spaced words)
    healing := (parts.1.filterMap healing?).getLast?
    average := parts.2.average
    activity := parts.2.activity
    format := parts.2.format }

/-- Reads a body; the first token tells whether it has keys. -/
def read (body : String) : Heal :=
  match Token.split body with
  | [] => {}
  | t :: ts =>
    if (Entry.ofToken? t).isSome then (t :: ts).foldl add {}
    else readPositional (t :: ts)

end Heal

end RollMarkup
