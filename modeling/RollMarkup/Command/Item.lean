import RollMarkup.Body.Entry
import RollMarkup.Command.Bracket

/-!
# Links to items

An item is named by its identifier, by an identifier relative to the actor that holds it, or by
its name.
-/

namespace RollMarkup

/-- A link to an item, and to one of its activities. -/
structure Item where
  name : Option String := none
  activity : Option String := none
  uuid : Option String := none
  relativeId : Option String := none
  deriving DecidableEq, Repr

namespace Item

/-! ### Writing -/

/-- What the item is named by: of several, the most definite. -/
def identifier? (i : Item) : Option String :=
  ((Text.filled i.uuid).or (Text.filled i.relativeId)).or (Text.filled i.name)

/-- The parts of the body. An activity without an item is left out. -/
def parts (i : Item) : List String :=
  match i.identifier? with
  | none => []
  | some id => id :: ((Text.filled i.activity).map Token.ofValue).toList

/-- The canonical text of an item link. -/
def write (i : Item) : String :=
  bracketed "item" i.parts

/-! ### Reading -/

/-- A non-empty run of ASCII letters and digits. -/
def isAlphanumeric (cs : List Char) : Bool :=
  cs ≠ [] && cs.all Char.isAlphanum

/-- The identifier of an item that an actor holds: `Actor`, the actor, `Item` and the item, with
dots between them. -/
def isUuid (token : String) : Bool :=
  match token.toList.splitOn '.' with
  | [a, actor, i, item] =>
    String.ofList a == "Actor" && isAlphanumeric actor && String.ofList i == "Item" &&
      isAlphanumeric item
  | _ => false

/-- A word that can be a relative identifier. -/
def isPlainId (token : String) : Bool :=
  token ≠ "" && token.toList.all fun c => c.isAlphanum || c = '_' || c = '.' || c = '-'

/-- A token between two quotes of its own. -/
def isQuoted (token : String) : Bool :=
  match token.toList with
  | '"' :: cs => cs.getLast? = some '"'
  | _ => false

/-- The tokens that name the item, and the activity in quotes behind them. -/
def cutActivity (tokens : List String) : List String × Option String :=
  match tokens.getLast? with
  | some last =>
    if 1 < tokens.length ∧ isQuoted last then (tokens.dropLast, some (Token.toValue last))
    else (tokens, none)
  | none => (tokens, none)

/-- The values of the tokens with spaces between them. -/
def valueText (tokens : List String) : String :=
  Text.spaced (tokens.map Token.toValue)

/-- Reads the tokens that name the item. Behind an identifier stands the activity, unless it is
already known; a single plain word is a relative identifier even where a name was meant. -/
def ofTokens (activity : Option String) : List String → Item
  | [] => { activity }
  | t :: ts =>
    let named := activity.or (Text.filled? (valueText ts))
    if isUuid t then { uuid := some t, activity := named }
    else if t.toList.head? = some '.' then { relativeId := some t, activity := named }
    else if ts = [] ∧ isPlainId t then { relativeId := some t, activity }
    else { name := some (valueText (t :: ts)), activity }

/-- Reads the body of an item link. -/
def read (body : String) : Item :=
  let cut := cutActivity (Token.split body)
  ofTokens cut.2 cut.1

end Item

end RollMarkup
