import RollMarkup.Document.House
import RollMarkup.Document.Occurrence

/-!
# Findings in a document

A command whose text is not canonical is reported, and so is every ability, skill and tool in a
command that neither the vocabulary nor the house rules know.
-/

namespace RollMarkup

/-- The fields whose names are checked. -/
inductive NameField where
  | ability
  | skill
  | tool
  deriving DecidableEq, Repr

/-- What a message calls a field. -/
def NameField.word : NameField → String
  | ability => "ability"
  | skill => "skill"
  | tool => "tool"

/-- What is wrong with a command. -/
inductive Complaint where
  | nonCanonical (found canonical : String)
  | unknownName (field : NameField) (value : String)
  deriving DecidableEq, Repr

/-- A complaint and the part of the document that it is about. -/
structure Finding where
  start : Nat
  stop : Nat
  text : String
  complaint : Complaint
  deriving DecidableEq, Repr

/-- The names in a command that are checked, each with its field. -/
def Command.names : Command → List (NameField × String)
  | .check c =>
    c.ability.toList.map (NameField.ability, ·) ++
      (Selection.values c.skills).map (NameField.skill, ·) ++
      (Selection.values c.tools).map (NameField.tool, ·)
  | .save s => (Selection.values s.abilities).map (NameField.ability, ·)
  | _ => []

namespace House

/-- Whether a name is known to the vocabulary or the house. -/
def knows (h : House) : NameField → String → Bool
  | .ability, s => (Ability.find? s).isSome || h.listsAbility s
  | .skill, s => (Skill.find? s).isSome || h.listsSkill s
  | .tool, s => (h.listsTool? s).getD true

/-- The complaints about the names in a command. -/
def unknownNames (h : House) (c : Command) : List Complaint :=
  (c.names.filter fun n => !h.knows n.1 n.2).map fun n => .unknownName n.1 n.2

/-- The complaints about a command: the one about its text comes first. -/
def complaints (h : House) (o : Occurrence) : List Complaint :=
  (if o.canonical = o.text then [] else [.nonCanonical o.text o.canonical]) ++
    h.unknownNames o.command

/-- The findings about a command. -/
def findingsAt (h : House) (o : Occurrence) : List Finding :=
  (h.complaints o).map fun c => ⟨o.start, o.stop, o.text, c⟩

/-- Every finding in a document, command after command. -/
def findings (h : House) (document : String) : List Finding :=
  (Occurrence.scan document).flatMap h.findingsAt

/-- An unknown name is a failure always, other text than the canonical one where the house denies
it. -/
def fails (h : House) (f : Finding) : Bool :=
  match f.complaint with
  | .nonCanonical _ _ => h.strict
  | .unknownName _ _ => true

end House

end RollMarkup
