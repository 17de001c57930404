import RollMarkup.Json.Lexeme

/-!
# Reading of JSON texts

The lexemes of a text are taken one after another, with the lists and objects that are still open
kept on a stack.
-/

namespace RollMarkup.Json

/-- A member put into members that are sorted by key; it takes the place of one with its key. -/
def insertMember (key : String) (v : Json) : List (String × Json) → List (String × Json)
  | [] => [(key, v)]
  | m :: ms =>
    if key < m.1 then (key, v) :: m :: ms
    else if key = m.1 then (key, v) :: ms
    else m :: insertMember key v ms

/-- A list or an object that is still open. -/
inductive Frame where
  /-- A list with the items so far, the last one first. -/
  | list (items : List Json)
  /-- An object with the members so far, and the key of the one that is being read. -/
  | object (members : List (String × Json)) (key : String)

/-- What has been read, and with it what may come next. -/
inductive State where
  /-- A value has to come; the flag tells whether a list may also end. -/
  | value (mayClose : Bool) (stack : List Frame)
  /-- A key has to come; the flag tells whether the object may also end. -/
  | key (mayClose : Bool) (members : List (String × Json)) (stack : List Frame)
  /-- The colon behind a key has to come. -/
  | colon (members : List (String × Json)) (key : String) (stack : List Frame)
  /-- An item is complete: a comma or the end of the list has to come. -/
  | item (items : List Json) (stack : List Frame)
  /-- A member is complete: a comma or the end of the object has to come. -/
  | member (members : List (String × Json)) (stack : List Frame)
  /-- The whole value is complete. -/
  | done (v : Json)

/-- Lists and objects may stand in each other this many times, the outermost included. -/
def maxDepth : Nat := 127

namespace State

/-- A complete value is put where it belongs. -/
def complete (v : Json) : List Frame → State
  | [] => done v
  | .list items :: stack => item (v :: items) stack
  | .object members k :: stack => member (insertMember k v members) stack

/-- A list or an object opens where a value has to come. -/
def openAt (stack : List Frame) (next : State) : Option State :=
  if stack.length < maxDepth then some next else none

/-- The state after one more lexeme; none if it may not come. -/
def next? (s : State) (l : Lexeme) : Option State :=
  match s, l with
  | value _ stack, .value v => some (complete v stack)
  | value _ stack, .openList => openAt stack (value true (.list [] :: stack))
  | value _ stack, .openObject => openAt stack (key true [] stack)
  | value true (.list _ :: stack), .closeList => some (complete (.list []) stack)
  | key _ members stack, .value (.str k) => some (colon members k stack)
  | key true _ stack, .closeObject => some (complete (.object []) stack)
  | colon members k stack, .colon => some (value false (.object members k :: stack))
  | item items stack, .comma => some (value false (.list items :: stack))
  | item items stack, .closeList => some (complete (.list items.reverse) stack)
  | member members stack, .comma => some (key false members stack)
  | member members stack, .closeObject => some (complete (.object members) stack)
  | _, _ => none

end State

/-- Reads a JSON text. Members come out sorted by key; of several with one key the last counts. -/
def read? (text : String) : Option Json :=
  match (Lexeme.ofChars? text.toList).bind fun ls => ls.foldlM State.next? (.value false []) with
  | some (.done v) => some v
  | _ => none

end RollMarkup.Json
