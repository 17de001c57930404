/-!
# Closed vocabularies

A type whose values are each written as one fixed word.
-/

namespace RollMarkup

/-- A finite type with a word for each value, listed in the order in which messages name them. -/
class Keyword (α : Type) where
  all : List α
  word : α → String

/-- The value written as `s`, letter for letter. -/
def Keyword.ofWord? {α : Type} [Keyword α] (s : String) : Option α :=
  (Keyword.all (α := α)).find? (Keyword.word · == s)

end RollMarkup
