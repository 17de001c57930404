import RollMarkup.Toml.Moment
import RollMarkup.Toml.Scalar
import RollMarkup.Toml.Table

/-!
# Reading of TOML documents

Of a document only its strings, booleans, lists and tables are kept; numbers, dates and times are
checked and then told apart from those alone.
-/

namespace RollMarkup.Toml

/-- A character of a word or a number. -/
def isWordChar (c : Char) : Bool :=
  c.isAlphanum || c = '+' || c = '-' || c = '_' || c = '.'

/-- The value that a word or a number stands for. -/
def word? (cs : List Char) : Option Value :=
  if cs = "true".toList then some (.boolean true)
  else if cs = "false".toList then some (.boolean false)
  else if isInteger cs || isFloat cs then some .other
  else none

mutual

/-- A value inside so many lists and tables; `fuel` bounds how many values and commas are read. -/
def valueWithin? (depth : Nat) : Nat → List Char → Reading Value
  | 0, _ => none
  | fuel + 1, cs =>
    match cs with
    | '[' :: rest =>
      if depth < maxDepth then
        (skipLines? false rest).bind fun rest =>
          (itemsWithin? (depth + 1) fuel rest).map fun p => (.list p.1, p.2)
      else none
    | '\x7b' :: rest =>
      if depth < maxDepth then
        match skipGap rest with
        | '\x7d' :: rest => some (.table .inline [], rest)
        | rest => (pairsWithin? (depth + 1) fuel [] rest).map fun p => (.table .inline p.1, p.2)
      else none
    | '"' :: _ | '\'' :: _ => (string? cs).map fun p => (.string p.1, p.2)
    | _ =>
      match moment? cs with
      | some rest => some (.other, rest)
      | none => (word? (cs.takeWhile isWordChar)).map fun v => (v, cs.dropWhile isWordChar)

/-- The items of an array up to its closing bracket. A comma may stand behind the last one. -/
def itemsWithin? (depth : Nat) : Nat → List Char → Reading (List Value)
  | 0, _ => none
  | fuel + 1, cs =>
    match cs with
    | ']' :: rest => some ([], rest)
    | _ =>
      (valueWithin? depth fuel cs).bind fun p =>
        (skipLines? false p.2).bind fun
          | ',' :: rest =>
            (skipLines? false rest).bind fun rest =>
              (itemsWithin? depth fuel rest).map fun q => (p.1 :: q.1, q.2)
          | ']' :: rest => some ([p.1], rest)
          | _ => none

/-- The members of a table between braces, behind those already read. -/
def pairsWithin? (depth : Nat) : Nat → Members → List Char → Reading Members
  | 0, _, _ => none
  | fuel + 1, ms, cs =>
    (key? cs).bind fun
      | (keys, '=' :: rest) =>
        (valueWithin? depth fuel (skipGap rest)).bind fun p =>
          (ms.put? keys p.1).bind fun ms =>
            match skipGap p.2 with
            | ',' :: rest => pairsWithin? depth fuel ms rest
            | '\x7d' :: rest => some (ms, rest)
            | _ => none
      | _ => none

end

/-- A value; there are fewer values and commas in it than characters. -/
def value? (cs : List Char) : Reading Value :=
  valueWithin? 0 (2 * cs.length + 2) cs

/-- A document that is being read: its members and the path of the header that is in force. -/
structure Draft where
  members : Members := []
  path : List String := []

/-- One line of a document, from its first character that is no gap, and the text behind the
line. -/
def line? (d : Draft) : List Char → Reading Draft
  | '[' :: '[' :: cs =>
    (key? cs).bind fun
      | (path, ']' :: ']' :: rest) =>
        (d.members.openItem? path).bind fun ms =>
          (endLine? rest).map fun rest => (⟨ms, path⟩, rest)
      | _ => none
  | '[' :: cs =>
    (key? cs).bind fun
      | (path, ']' :: rest) =>
        (d.members.openTable? path).bind fun ms =>
          (endLine? rest).map fun rest => (⟨ms, path⟩, rest)
      | _ => none
  | cs =>
    (key? cs).bind fun
      | (keys, '=' :: rest) =>
        (value? (skipGap rest)).bind fun p =>
          (d.members.alter? d.path (Members.put? keys p.1)).bind fun ms =>
            (endLine? p.2).map fun rest => ({ d with members := ms }, rest)
      | _ => none

/-- The lines of a document; there are at most `fuel` of them. -/
def linesWithin? : Nat → Draft → List Char → Option Members
  | 0, _, _ => none
  | fuel + 1, d, cs =>
    (skipLines? false cs).bind fun
      | [] => some d.members
      | cs => (line? d cs).bind fun p => linesWithin? fuel p.1 p.2

/-- Reads a TOML document; a byte order mark in front of it is passed over. -/
def read? (document : String) : Option Members :=
  let cs :=
    match document.toList with
    | '\ufeff' :: cs => cs
    | cs => cs
  linesWithin? (cs.length + 1) {} cs

end RollMarkup.Toml
