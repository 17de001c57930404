import RollMarkup.Text.Cut

/-!
# Commands in double brackets
-/

namespace RollMarkup

/-- A command in double brackets: its keyword, then the parts that are not empty. -/
def bracketed (keyword : String) (parts : List String) : String :=
  "[[/" ++ Text.spaced (keyword :: parts.filter (· ≠ "")) ++ "]]"

end RollMarkup
