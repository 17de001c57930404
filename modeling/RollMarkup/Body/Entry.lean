import RollMarkup.Body.Token
import RollMarkup.Text.Cut

/-!
# Entries of a command body

A token with an equals sign gives a field its value. A field that takes several values has them in
one token with slashes between them.
-/

namespace RollMarkup

/-- A field's key and the text of its value. -/
structure Entry where
  key : String
  value : String
  deriving DecidableEq, Repr

namespace Entry

/-- Reads a token with an equals sign; the first one ends the key. -/
def ofToken? (token : String) : Option Entry :=
  (Text.cut? '=' token).map fun p => ⟨p.1, Token.toValue p.2⟩

/-- The token of an entry. -/
def toToken (e : Entry) : String :=
  e.key ++ "=" ++ Token.ofValue e.value

/-- The non-empty parts of a value between slashes. -/
def valueList (value : String) : List String :=
  ((value.toList.splitOn '/').filter (· ≠ [])).map String.ofList

/-- The entry that gives a field several values; none if there are no values. -/
def ofList? (key : String) (values : List String) : Option Entry :=
  if values = [] then none else some ⟨key, "/".intercalate values⟩

end Entry

end RollMarkup
