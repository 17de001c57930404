import RollMarkup.Document.Match

/-!
# The commands of a document

The commands of a text from left to right, with the bytes of its UTF-8 form that each one takes.
-/

namespace RollMarkup

/-- A command in a document. -/
structure Occurrence where
  kind : Kind
  command : Command
  /-- The text of the command as it stands in the document. -/
  text : String
  /-- The number of bytes before the command. -/
  start : Nat
  /-- The number of bytes before the text behind the command. -/
  stop : Nat
  deriving DecidableEq, Repr

namespace Occurrence

/-- The number of bytes that the characters take in UTF-8. -/
def byteLength : List Char → Nat
  | [] => 0
  | c :: cs => c.utf8Size + byteLength cs

/-- The occurrence of a command that begins after `start` bytes. -/
def ofMatch (start : Nat) (m : Match) : Occurrence :=
  { kind := m.kind
    command := m.command
    text := String.ofList m.text
    start
    stop := start + byteLength m.text }

/-- The commands of a text whose first character comes after `start` bytes. The search goes on
behind each command and the label behind it. -/
def scanChars (start : Nat) : List Char → List Occurrence
  | [] => []
  | c :: cs =>
    match _h : Match.atHead? (c :: cs) with
    | none => scanChars (start + c.utf8Size) cs
    | some m =>
      ofMatch start m :: scanChars (start + byteLength m.text + byteLength m.skipped) m.rest
termination_by cs => cs.length
decreasing_by
  · simp
  · exact Match.length_rest_lt _h

/-- Every command of a document, from left to right. -/
def scan (document : String) : List Occurrence :=
  scanChars 0 document.toList

/-- The first command of a text whose first character comes after `start` bytes. -/
def firstChars? (start : Nat) : List Char → Option Occurrence
  | [] => none
  | c :: cs =>
    match Match.atHead? (c :: cs) with
    | none => firstChars? (start + c.utf8Size) cs
    | some m => some (ofMatch start m)

/-- The first command of a text. -/
def first? (text : String) : Option Occurrence :=
  firstChars? 0 text.toList

/-- The canonical text of the command. -/
def canonical (o : Occurrence) : String :=
  o.command.write o.kind

end Occurrence

/-- How many lines end within the first `left` bytes of a text. -/
def lineEnds (left : Nat) : List Char → Nat
  | [] => 0
  | c :: cs =>
    if left = 0 then 0
    else lineEnds (left - c.utf8Size) cs + if c = '\n' then 1 else 0

/-- The line on which a byte of a document stands; lines are counted from one. -/
def lineNumber (document : String) (offset : Nat) : Nat :=
  lineEnds offset document.toList + 1

end RollMarkup
