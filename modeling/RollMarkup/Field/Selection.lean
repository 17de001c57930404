/-!
# Fields that hold one value or several
-/

namespace RollMarkup

/-- One value, or a list of any length. A list of one value is told apart from the value alone. -/
inductive Selection where
  | one (value : String)
  | many (values : List String)
  deriving DecidableEq, Repr

namespace Selection

/-- The values of a selection. -/
def toList : Selection → List String
  | one v => [v]
  | many vs => vs

/-- The plainest selection of the values, and none of no values. -/
def ofList? : List String → Option Selection
  | [] => none
  | [v] => some (one v)
  | vs => some (many vs)

/-- How many values there are. -/
def size (s : Selection) : Nat :=
  s.toList.length

/-- The value, if there is exactly one. -/
def single? (s : Selection) : Option String :=
  match s.toList with
  | [v] => some v
  | _ => none

/-- The values of an optional selection. -/
def values (s : Option Selection) : List String :=
  (s.map toList).getD []

/-- The values of an optional selection that are not empty. -/
def filled (s : Option Selection) : List String :=
  (values s).filter (· ≠ "")

end Selection

end RollMarkup
