import RollMarkup.Command.Decoding
import RollMarkup.Command.Plain
import RollMarkup.Document.Encoding
import RollMarkup.Document.Finding
import RollMarkup.Document.Settings
import RollMarkup.Json.Reader
import RollMarkup.Shell.Arguments
import RollMarkup.Shell.Files
import RollMarkup.Text.Blank

/-!
# The program

What the program writes and how it ends, given its arguments and what it finds to read.
-/

namespace RollMarkup.Shell

/-- What the program writes, and the code with which it ends. -/
structure Response where
  code : Nat := 0
  stdout : String := ""
  stderr : String := ""
  deriving DecidableEq, Repr

/-- Why the program cannot do what it is asked for. -/
inductive Failure where
  | unknownKind (word : String)
  | unreadableInput
  | notJson
  | undecodable (kind : Kind)
  | notInteger
  | notAnInput (v : Json)
  | noSuchFile (path : String)
  | unreadable (path : String)

/-- What is said about a failure. -/
def Failure.message : Failure → String
  | unknownKind word => "unknown command kind '" ++ word ++ "'"
  | unreadableInput => "reading options from stdin"
  | notJson => "parsing options JSON"
  | undecodable kind => "decoding " ++ Keyword.word kind ++ " options"
  | notInteger => "legacy number input must be an integer"
  | notAnInput v => "expected an options object, string, or number; got " ++ v.compact
  | noSuchFile path => "stat " ++ path
  | unreadable path => "reading " ++ path

/-- The response of a program that fails after it has written something. -/
def Failure.response (f : Failure) (stdout : String) : Response :=
  { code := 1, stdout, stderr := "Error: " ++ f.message ++ "\n" }

/-! ### Writing of commands -/

/-- The text of the command of a kind that a JSON value stands for: an object is a record, a string
or an integer a plain value, and `null` a command without fields. -/
def commandText (k : Kind) : Json → Except Failure String
  | .null => .ok ((Command.empty k).write k)
  | .str s => .ok ((Plain.text s).write k)
  | .int n =>
    match Numeral.ofInt? n with
    | some n => .ok ((Plain.number n).write k)
    | none => .error .notInteger
  | .float _ => .error .notInteger
  | .object ms =>
    match Command.ofMembers k ms with
    | .ok c => .ok (c.write k)
    | .error _ => .error (.undecodable k)
  | v => .error (.notAnInput v)

/-- The JSON value in a text; a blank text holds `null`. -/
def jsonOf (text : String) : Except Failure Json :=
  if text.toList.all Text.isBlank then .ok .null
  else
    match Json.read? text with
    | some v => .ok v
    | none => .error .notJson

/-- The text of JSON, from an argument or from the standard input. -/
def inputText (stdin : ByteArray) : Option String → Except Failure String
  | some json => .ok json
  | none =>
    match String.fromUTF8? stdin with
    | some text => .ok text
    | none => .error .unreadableInput

/-- The text of the command that JSON stands for, of a kind given by its word. -/
def writtenText (stdin : ByteArray) (kind : String) (json : Option String) :
    Except Failure String := do
  match (Keyword.ofWord? kind : Option Kind) with
  | none => throw (.unknownKind kind)
  | some k => commandText k (← jsonOf (← inputText stdin json))

/-! ### Listing of commands -/

/-- A word with blanks behind it up to a width. -/
def padded (width : Nat) (s : String) : String :=
  s ++ String.ofList (List.replicate (width - s.length) ' ')

/-- The line about an occurrence in a file. -/
def scanLine (path document : String) (o : Occurrence) : String :=
  path ++ ":" ++ (lineNumber document o.start).repr ++ "  " ++ padded 13 (Keyword.word o.kind) ++
    " " ++ o.text ++ "\n"

/-- A line for each command in a file. -/
def listing (lookup : String → Option Entry) (path : String) : Except Failure String :=
  match (lookup path).bind Entry.text? with
  | none => .error (.unreadable path)
  | some document =>
    .ok (String.join ((Occurrence.scan document).map (scanLine path document)))

/-! ### Checking of documents -/

/-- What is said about a complaint. -/
def Complaint.message : Complaint → String
  | .nonCanonical _ canonical => "canonical form is " ++ canonical
  | .unknownName field value => "unknown " ++ field.word ++ " '" ++ value ++ "'"

/-- The line about a finding in a file. -/
def findingLine (h : House) (path document : String) (f : Finding) : String :=
  path ++ ":" ++ (lineNumber document f.start).repr ++ ": " ++
    (if h.fails f then "error" else "note") ++ ": " ++ f.text ++ "  " ++
    Complaint.message f.complaint ++ "\n"

/-- What is written about a list of files, how many findings are failures, and the first file that
is no text: the files from there on are not looked at. -/
structure Report where
  stdout : String := ""
  failures : Nat := 0
  unreadable : Option String := none
  deriving DecidableEq, Repr

/-- The report about a document. -/
def documentReport (h : House) (path document : String) : Report :=
  let fs := h.findings document
  { stdout := String.join (fs.map (findingLine h path document))
    failures := fs.countP h.fails }

/-- The report about files one after another. -/
def report (h : House) : List (String × ByteArray) → Report
  | [] => {}
  | (path, content) :: rest =>
    match String.fromUTF8? content with
    | none => { unreadable := some path }
    | some document =>
      let first := documentReport h path document
      let others := report h rest
      { stdout := first.stdout ++ others.stdout
        failures := first.failures + others.failures
        unreadable := others.unreadable }

/-- The response to a check of files under a path. -/
def filesResponse (h : House) (path : String) (files : List (String × ByteArray)) : Response :=
  let r := report h files
  let notice :=
    if files.isEmpty then "lint: no .html/.md/.txt files under '" ++ path ++ "'\n" else ""
  match r.unreadable with
  | some file => Failure.response (.unreadable file) r.stdout
  | none =>
    if r.failures = 0 then
      { stdout := r.stdout
        stderr := notice ++ "lint: OK (" ++ files.length.repr ++ " file(s))\n" }
    else
      { code := 1
        stdout := r.stdout
        stderr := notice ++ "lint: " ++ r.failures.repr ++ " failure(s)\n" }

/-- The response to a check of a path, under the house rules in a file if one is given. -/
def checkResponse (lookup : String → Option Entry) (path : String) (config : Option String)
    (deny : Bool) : Response :=
  let h : House :=
    match config with
    | some file => House.loadOrDefault ((lookup file).bind Entry.content?)
    | none => {}
  match lookup path with
  | none => Failure.response (.noSuchFile path) ""
  | some e =>
    filesResponse { h with strict := h.strict || deny } path
      (e.sorted.documents path)

/-! ### The program as a whole -/

/-- The response to a run that writes one text if nothing is wrong. -/
def respond : Except Failure String → Response
  | .ok text => { stdout := text }
  | .error f => f.response ""

/-- Does what the program is asked to do, with the standard input and the files and folders that
paths lead to. -/
def Invocation.run (stdin : ByteArray) (lookup : String → Option Entry) : Invocation → Response
  | serialize kind json => respond ((writtenText stdin kind json).map (· ++ "\n"))
  | parse text =>
    match Occurrence.first? text with
    | some o => { stdout := o.toJson.pretty ++ "\n" }
    | none => { code := 1, stderr := "not a command\n" }
  | scan path => respond (listing lookup path)
  | lint path config deny => checkResponse lookup path config deny

/-- The response to arguments that ask for nothing that can be done. -/
def Refusal.response : Refusal → Response
  | usage => { code := 2 }
  | help => {}
  | version => { stdout := "enricher_script 0.1.0\n" }

/-- The response of the program to its arguments. -/
def run (args : List String) (stdin : ByteArray) (lookup : String → Option Entry) : Response :=
  match Invocation.ofArguments args with
  | .ok invocation => invocation.run stdin lookup
  | .error refusal => refusal.response

/-- Whether the standard input is read. -/
def Invocation.readsInput : Invocation → Bool
  | serialize _ none => true
  | _ => false

/-- The paths that are looked at. -/
def Invocation.paths : Invocation → List String
  | serialize _ _ | parse _ => []
  | scan path => [path]
  | lint path config _ => path :: config.toList

end RollMarkup.Shell
