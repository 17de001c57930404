import RollMarkup.Vocabulary.Keyword

/-!
# Fields with a fixed set of values
-/

namespace RollMarkup

/-- How much of a command is shown. -/
inductive DisplayFormat where
  | short
  | long
  | extended
  deriving DecidableEq, Repr

instance : Keyword DisplayFormat where
  all := [.short, .long, .extended]
  word
    | .short => "short"
    | .long => "long"
    | .extended => "extended"

/-- The edition of the rules under which a command is resolved. -/
inductive Edition where
  | year2014
  | year2024
  deriving DecidableEq, Repr

instance : Keyword Edition where
  all := [.year2014, .year2024]
  word
    | .year2014 => "2014"
    | .year2024 => "2024"

/-- What a heal restores. -/
inductive Healing where
  | hitPoints
  | temporary
  /-- Another word for `temporary`. -/
  | temporaryHitPoints
  deriving DecidableEq, Repr

instance : Keyword Healing where
  all := [.hitPoints, .temporary, .temporaryHitPoints]
  word
    | .hitPoints => "healing"
    | .temporary => "temp"
    | .temporaryHitPoints => "temphp"

/-- Whether temporary hit points are meant, by either word. -/
def Healing.isTemporary : Healing → Bool
  | .hitPoints => false
  | .temporary | .temporaryHitPoints => true

/-- Who sees the outcome of a dice roll. -/
inductive Audience where
  | everyone
  | gameMaster
  /-- The game master alone: not even the one who rolls. -/
  | gameMasterBlind
  | oneself
  deriving DecidableEq, Repr

namespace Audience

instance : Keyword Audience where
  all := [.everyone, .gameMaster, .gameMasterBlind, .oneself]
  word
    | .everyone => "public"
    | .gameMaster => "gm"
    | .gameMasterBlind => "blind"
    | .oneself => "self"

/-- The command that rolls dice for this audience. -/
def keyword (a : Audience) : String :=
  Keyword.word a ++ "roll"

/-- The audience of a roll command. -/
def ofKeyword? (s : String) : Option Audience :=
  (Keyword.all (α := Audience)).find? (·.keyword == s)

end Audience

/-- When a roll inside running text is made. -/
inductive InlineForm where
  /-- As soon as the text is shown. -/
  | immediate
  /-- When the reader asks for it. -/
  | deferred
  deriving DecidableEq, Repr

instance : Keyword InlineForm where
  all := [.immediate, .deferred]
  word
    | .immediate => "immediate"
    | .deferred => "deferred"

end RollMarkup
