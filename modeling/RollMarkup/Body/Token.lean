import RollMarkup.Text.Blank

/-!
# Tokens of a command body

A body is a row of tokens with blanks between them. Double quotes keep the blanks between them
inside a token; a quote that is never closed keeps all that follows.
-/

namespace RollMarkup.Token

/-- The characters up to the first blank outside quotes, and the tokens behind that blank.
`inQuotes` tells whether the text starts inside quotes. -/
def scan (inQuotes : Bool) : List Char → List Char × List (List Char)
  | [] => ([], [])
  | c :: cs =>
    if c = '"' then
      let next := scan (!inQuotes) cs
      (c :: next.1, next.2)
    else if Text.isBlank c && !inQuotes then
      let next := scan false cs
      ([], if next.1.isEmpty then next.2 else next.1 :: next.2)
    else
      let next := scan inQuotes cs
      (c :: next.1, next.2)

/-- The tokens of a body, each with its quotes. None is empty. -/
def splitChars (body : List Char) : List (List Char) :=
  let parts := scan false body
  if parts.1.isEmpty then parts.2 else parts.1 :: parts.2

/-- The tokens of a body, each with its quotes. None is empty. -/
def split (body : String) : List String :=
  (splitChars body.toList).map String.ofList

/-- A value needs quotes in a body if it would fall apart there or read as an entry. -/
def needsQuotes (value : String) : Bool :=
  value.toList.any fun c => Text.isBlank c || c == '='

/-- The token that stands for a value. Quotes inside the value are left as they are. -/
def ofValue (value : String) : String :=
  if needsQuotes value then "\"" ++ value ++ "\"" else value

/-- The characters between a quote at the start and a quote at the end, if there are two such. -/
def unquoteChars : List Char → List Char
  | '"' :: cs => if cs.getLast? = some '"' then cs.dropLast else '"' :: cs
  | cs => cs

/-- The value that a token stands for: one pair of quotes around it does not count. -/
def toValue (token : String) : String :=
  String.ofList (unquoteChars token.toList)

end RollMarkup.Token
