import RollMarkup.Text.Cut

/-!
# Command line arguments

The four commands of the program and the arguments that they take.
-/

namespace RollMarkup.Shell

/-- What the program is asked to do. -/
inductive Invocation where
  /-- Write the command of a kind from JSON, which comes from the standard input if it is not
  given. -/
  | serialize (kind : String) (json : Option String)
  /-- Show the command that a text holds. -/
  | parse (text : String)
  /-- List the commands in a file. -/
  | scan (path : String)
  /-- Check the commands in a file or in the documents of a folder. -/
  | lint (path : String) (config : Option String) (strict : Bool)
  deriving DecidableEq, Repr

/-- Why there is nothing to do. -/
inductive Refusal where
  /-- The arguments make no sense. -/
  | usage
  /-- The arguments ask for help. -/
  | help
  /-- The arguments ask for the version of the program. -/
  | version
  deriving DecidableEq, Repr

/-- What an argument stands for. -/
inductive ArgumentType where
  | text
  /-- A path names something: it is not empty. -/
  | path
  deriving DecidableEq, Repr

/-- Whether an argument can stand for this. -/
def ArgumentType.accepts : ArgumentType → String → Bool
  | text, _ => true
  | path, s => s ≠ ""

/-- The arguments of a command: an operand, which is required, and options with and without a
value. -/
structure Form where
  operand : ArgumentType := .text
  valued : List (String × ArgumentType) := []
  flags : List String := []

/-- Arguments sorted by their form. -/
structure Arguments where
  operand : Option String := none
  values : List (String × String) := []
  flags : List String := []

namespace Arguments

/-- Whether an argument looks like an option; a lone dash does not. -/
def isOption (arg : String) : Bool :=
  match arg.toList with
  | '-' :: _ :: _ => true
  | _ => false

/-- Whether an argument asks for help. Letters behind the short form are not looked at. -/
def asksHelp (arg : String) : Bool :=
  arg == "--help" || "-h".toList.isPrefixOf arg.toList

/-- The name and the value of an option with an equals sign. -/
def cutValue? (arg : String) : Option (String × String) :=
  Text.cut? '=' arg

/-- One more argument that is no option: there is only one. -/
def addOperand (form : Form) (a : Arguments) (arg : String) : Except Refusal Arguments :=
  if a.operand.isSome || !form.operand.accepts arg then .error .usage
  else .ok { a with operand := some arg }

/-- One more option with a value. No option comes twice. -/
def addValue (form : Form) (a : Arguments) (name value : String) : Except Refusal Arguments :=
  if (a.values.lookup name).isSome || !(form.valued.lookup name).any (·.accepts value) then
    .error .usage
  else .ok { a with values := (name, value) :: a.values }

/-- One more option without a value. No option comes twice. -/
def addFlag (a : Arguments) (name : String) : Except Refusal Arguments :=
  if name ∈ a.flags then .error .usage else .ok { a with flags := name :: a.flags }

/-- Sorts arguments from left to right, up to the first that is wrong or asks for help. Behind two
dashes no argument is an option. -/
def sort (form : Form) (a : Arguments) : List String → Except Refusal Arguments
  | [] => .ok a
  | arg :: rest =>
    if arg = "--" then rest.foldlM (addOperand form) a
    else if !isOption arg then (a.addOperand form arg).bind fun a => sort form a rest
    else if asksHelp arg then .error .help
    else if arg ∈ form.flags then (a.addFlag arg).bind fun a => sort form a rest
    else
      match cutValue? arg, rest with
      | some (name, value), rest =>
        (a.addValue form name value).bind fun a => sort form a rest
      | none, value :: rest =>
        if isOption value then .error .usage
        else (a.addValue form arg value).bind fun a => sort form a rest
      | none, [] => .error .usage

/-- The arguments of a command and its operand. -/
def read (form : Form) (args : List String) : Except Refusal (String × Arguments) :=
  (sort form {} args).bind fun a =>
    match a.operand with
    | some operand => .ok (operand, a)
    | none => .error .usage

end Arguments

namespace Invocation

/-- The arguments of `serialize`: a kind, and where the JSON comes from. -/
def ofSerialize (args : List String) : Except Refusal Invocation :=
  (Arguments.read { valued := [("--json", .text)] } args).map fun p =>
    serialize p.1 (p.2.values.lookup "--json")

/-- The arguments of `parse`: a text. -/
def ofParse (args : List String) : Except Refusal Invocation :=
  (Arguments.read {} args).map fun p => parse p.1

/-- The arguments of `scan`: a path. -/
def ofScan (args : List String) : Except Refusal Invocation :=
  (Arguments.read { operand := .path } args).map fun p => scan p.1

/-- What `lint` takes. -/
def lintForm : Form :=
  { operand := .path, valued := [("--config", .path)], flags := ["--deny-noncanonical"] }

/-- The arguments of `lint`: a path, and the house rules to go by. -/
def ofLint (args : List String) : Except Refusal Invocation :=
  (Arguments.read lintForm args).map fun p =>
    lint p.1 (p.2.values.lookup "--config") (p.2.flags ≠ [])

/-- What is made of arguments that name none of the four commands: a question for the version, or
for help about the program or one of its commands, or nothing. -/
def refusal : List String → Refusal
  | ["help"] => .help
  | ["help", name] =>
    if name ∈ ["serialize", "parse", "scan", "lint", "help"] then .help else .usage
  | "help" :: _ | [] => .usage
  | arg :: _ =>
    if Arguments.asksHelp arg then .help
    else if arg = "--version" ∨ "-V".toList.isPrefixOf arg.toList then .version
    else .usage

/-- Reads the arguments of the program. The first one names the command. -/
def ofArguments : List String → Except Refusal Invocation
  | "serialize" :: args => ofSerialize args
  | "parse" :: args => ofParse args
  | "scan" :: args => ofScan args
  | "lint" :: args => ofLint args
  | args => .error (refusal args)

end Invocation

end RollMarkup.Shell
