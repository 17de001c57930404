import RollMarkup.Text.LetterCase

/-!
# House rules

The names that a table plays with besides the known ones, and how strict a check of its documents is
to be.
-/

namespace RollMarkup

/-- Names accepted besides the known ones, and whether every command must be canonical. -/
structure House where
  skills : List String := []
  /-- The tools there are. With none listed, tools are not checked. -/
  tools : List String := []
  abilities : List String := []
  /-- Whether a command that is not canonical is a failure. -/
  strict : Bool := false
  deriving DecidableEq, Repr

namespace House

/-- House names are compared without regard to the case of ASCII letters. -/
def isAmong (names : List String) (s : String) : Bool :=
  names.any fun name => Text.alike name s

/-- Whether a skill is listed. -/
def listsSkill (h : House) (s : String) : Bool :=
  isAmong h.skills s

/-- Whether an ability is listed. -/
def listsAbility (h : House) (s : String) : Bool :=
  isAmong h.abilities s

/-- Whether a tool is listed; nothing if tools are not checked. -/
def listsTool? (h : House) (s : String) : Option Bool :=
  if h.tools = [] then none else some (isAmong h.tools s)

end House

end RollMarkup
