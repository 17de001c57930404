/-!
# Comparison without regard to case

Names of the known vocabulary are compared in lower case, house names letter for letter except for
the case of ASCII letters.
-/

namespace RollMarkup.Text

/-- Two strings are alike if they differ at most in the case of ASCII letters. -/
def alike (s t : String) : Bool :=
  s.toList.map Char.toLower == t.toList.map Char.toLower

/-- The lower-case form of a character, among those that matter to ASCII words: the Kelvin sign is
the only character outside ASCII whose lower case is an ASCII letter. -/
def lowerChar (c : Char) : Char :=
  if c = '\u212a' then 'k' else c.toLower

/-- The string with the letters of `lowerChar` in lower case. It equals an ASCII word exactly when
the full lower-case form of the string does. -/
def lower (s : String) : String :=
  String.ofList (s.toList.map lowerChar)

end RollMarkup.Text
