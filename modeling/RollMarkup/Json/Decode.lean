import RollMarkup.Field.Quantity
import RollMarkup.Field.Selection
import RollMarkup.Json.Basic
import RollMarkup.Text.Quoted
import RollMarkup.Vocabulary.Keyword

/-!
# Decoding of JSON values

Why a JSON value cannot be decoded, what a message says about it, and the decoders of the single
fields of a record.
-/

namespace RollMarkup

/-- What a JSON value was expected to be. -/
inductive Expected where
  | string
  | boolean
  | sequence
  | keyword
  | unit
  | record (name : String)
  deriving DecidableEq, Repr

/-- Why a JSON value cannot be decoded. -/
inductive DecodeError where
  | wrongType (found : Json) (expected : Expected)
  /-- The value has none of the forms of a field that takes several. -/
  | noForm (type : String)
  | unknownWord (word : String) (known : List String)
  /-- A keyword given as an object has its word as the only key. -/
  | notOneKey
  /-- A record given as a list ends before a required field. -/
  | tooShort (length : Nat) (record : String) (fields : Nat)
  | tooLong (length : Nat)
  | missing (key : String)

namespace Expected

/-- What a message calls it. -/
def text : Expected → String
  | string => "a string"
  | boolean => "a boolean"
  | sequence => "a sequence"
  | keyword => "string or map"
  | unit => "unit"
  | record name => "struct " ++ name

end Expected

/-- A word as a message shows it. -/
def ticked (word : String) : String :=
  "`" ++ word ++ "`"

/-- What a message calls a JSON value. -/
def Json.described : Json → String
  | null => "null"
  | bool b => "boolean " ++ ticked (if b then "true" else "false")
  | int n => "integer " ++ ticked n.repr
  | float x => "floating point " ++ ticked (Numeral.writeFloat x)
  | str s => "string " ++ Text.quoted s
  | list _ => "sequence"
  | object _ => "map"

namespace DecodeError

/-- The words that were expected. -/
def alternatives : List String → String
  | [a, b] => ticked a ++ " or " ++ ticked b
  | words => "one of " ++ ", ".intercalate (words.map ticked)

/-- What is said about an error. -/
def message : DecodeError → String
  | wrongType found expected =>
    "invalid type: " ++ found.described ++ ", expected " ++ expected.text
  | noForm type => "data did not match any variant of untagged enum " ++ type
  | unknownWord word known =>
    "unknown variant " ++ ticked word ++ ", expected " ++ alternatives known
  | notOneKey => "invalid value: map, expected map with a single key"
  | tooShort length record fields =>
    "invalid length " ++ length.repr ++ ", expected struct " ++ record ++ " with " ++ fields.repr ++
      " elements"
  | tooLong length =>
    "invalid length " ++ length.repr ++ ", expected fewer elements in array"
  | missing key => "missing field " ++ ticked key

end DecodeError

/-- A decoded value, or why there is none. -/
abbrev Decoded (α : Type) := Except DecodeError α

namespace Json

/-- The members of an object, looked up by key. -/
abbrev Members := List (String × Json)

/-- A string. -/
def toText : Json → Decoded String
  | str s => .ok s
  | v => .error (.wrongType v .string)

/-- A boolean. -/
def toFlag : Json → Decoded Bool
  | bool b => .ok b
  | v => .error (.wrongType v .boolean)

/-- The items of a list. -/
def toSequence : Json → Decoded (List Json)
  | list vs => .ok vs
  | v => .error (.wrongType v .sequence)

/-- The value of a keyword type that is written as `word`. -/
def keywordOf {α : Type} [Keyword α] (word : String) : Decoded α :=
  match Keyword.ofWord? word with
  | some a => .ok a
  | none => .error (.unknownWord word ((Keyword.all (α := α)).map Keyword.word))

/-- A keyword is its word, or an object with the word as its only key and nothing behind it. -/
def toKeyword {α : Type} [Keyword α] : Json → Decoded α
  | str s => keywordOf s
  | object [(key, v)] =>
    match (keywordOf key : Decoded α), v with
    | .ok a, null => .ok a
    | .ok _, v => .error (.wrongType v .unit)
    | .error e, _ => .error e
  | object _ => .error .notOneKey
  | v => .error (.wrongType v .keyword)

/-- The string that a value is. -/
def text? : Json → Option String
  | str s => some s
  | _ => none

/-- A string is one value, and a list of strings several. -/
def toSelection : Json → Decoded Selection
  | str s => .ok (.one s)
  | list vs =>
    match vs.mapM text? with
    | some ss => .ok (.many ss)
    | none => .error (.noForm "OneOrMany")
  | _ => .error (.noForm "OneOrMany")

/-- The 64-bit integer that a value is. -/
def int64? : Json → Option Int64
  | int n => Numeral.ofInt? n
  | _ => none

/-- A 64-bit integer is a number, and a string a formula. -/
def toQuantity (v : Json) : Decoded Quantity :=
  match v.int64?, v.text? with
  | some n, _ => .ok (.number n)
  | none, some s => .ok (.formula s)
  | none, none => .error (.noForm "NumberOrText")

/-- A boolean is a flag, a 64-bit integer a number, and a string a formula. -/
def toAverage (v : Json) : Decoded Average :=
  match v with
  | bool b => .ok (.shown b)
  | _ =>
    match v.int64?, v.text? with
    | some n, _ => .ok (.number n)
    | none, some s => .ok (.formula s)
    | none, none => .error (.noForm "Average")

/-- A field that may be absent: `null` is as good as no value. -/
def optional {α : Type} (decode : Json → Decoded α) : Option Json → Decoded (Option α)
  | none | some null => .ok none
  | some v => (decode v).map some

/-- A field with a list that may be absent, but not `null`. -/
def listOf {α : Type} (decode : Json → Decoded α) : Option Json → Decoded (List α)
  | none => .ok []
  | some v => do (← v.toSequence).mapM decode

/-- A field that has to be there. -/
def required {α : Type} (key : String) : Option α → Decoded α
  | some a => .ok a
  | none => .error (.missing key)

end Json

end RollMarkup
