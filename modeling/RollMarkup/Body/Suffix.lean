import RollMarkup.Body.Entry
import RollMarkup.Field.Choice
import RollMarkup.Field.Quantity

/-!
# Settings behind a positional body

A damage or heal body that is written without keys may still end in an average, a format and an
activity, in any order.
-/

namespace RollMarkup

/-- The settings at the end of a positional body. -/
structure Suffix where
  average : Option Average := none
  format : Option DisplayFormat := none
  activity : Option String := none
  deriving DecidableEq, Repr

namespace Suffix

/-- The settings with those of one more token, if it is one that belongs to a suffix. -/
def take? (s : Suffix) (token : String) : Option Suffix :=
  if token = "average" then some { s with average := some (.shown true) }
  else
    match Entry.ofToken? token with
    | some ⟨"average", v⟩ => some { s with average := some (.ofText v) }
    | some ⟨"format", v⟩ => some { s with format := Keyword.ofWord? v }
    | some ⟨"activity", v⟩ => some { s with activity := some v }
    | _ => none

/-- Takes settings from the front as long as there are any, and gives back the other tokens. -/
def takeAll (s : Suffix) : List String → List String × Suffix
  | [] => ([], s)
  | t :: ts =>
    match s.take? t with
    | some s' => takeAll s' ts
    | none => (t :: ts, s)

/-- The tokens before the settings at the end, and those settings. Of two tokens for one setting
the first counts. -/
def cut (tokens : List String) : List String × Suffix :=
  let rest := takeAll {} tokens.reverse
  (rest.1.reverse, rest.2)

end Suffix

/-- The tokens that write an average behind a positional body. -/
def Average.positional : Option Average → List String
  | none | some (.shown false) => []
  | some (.shown true) => ["average"]
  | some a => [(Entry.mk "average" a.toText).toToken]

/-- The entry that writes an average; an average that is not shown has none. -/
def Average.entry? : Option Average → Option Entry
  | none | some (.shown false) => none
  | some a => some ⟨"average", a.toText⟩

end RollMarkup
