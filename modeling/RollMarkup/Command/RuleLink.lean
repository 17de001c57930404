import RollMarkup.Body.Entry
import RollMarkup.Vocabulary.Category

/-!
# Links to rules

The body of a link is the name of a rule, with its category in front where one is given. The name of
a known rule is written in its canonical form; any other name stays as it is, in quotes if need be.
-/

namespace RollMarkup

/-- A link to a rule. A condition may be linked without offering to apply it. -/
structure RuleLink where
  category : Option Category := none
  rule : Option String := none
  apply : Option Bool := none
  deriving DecidableEq, Repr

namespace RuleLink

/-! ### Writing -/

/-- A rule link with this body. -/
def enclosed (body : String) : String :=
  "&Reference[" ++ body ++ "]"

/-- The category under which a rule is written, and the text that names it: canonical where the rule
is known. -/
def target (category : Option Category) (rule : String) : Category × String :=
  match category with
  | some .rule => (.rule, (Entry.mk "rule" rule).toToken)
  | some c => (c, (Entry.mk c.key (c.canonical rule)).toToken)
  | none =>
    match Category.search? rule with
    | some found => found
    | none => (.rule, Token.ofValue rule)

/-- The body: nothing without a rule, and for a condition whether it is not to be applied. -/
def body (r : RuleLink) : String :=
  match Text.filled r.rule with
  | none => ""
  | some rule =>
    let t := target r.category rule
    if r.apply = some false ∧ t.1 = .condition then t.2 ++ " apply=false" else t.2

/-- The canonical text of a rule link. -/
def write (r : RuleLink) : String :=
  enclosed r.body

/-! ### Reading -/

/-- The tokens before an `apply` entry at the end, and its value. -/
def cutApply (tokens : List String) : List String × Option Bool :=
  match tokens.getLast? with
  | some "apply=false" => (tokens.dropLast, some false)
  | some "apply=true" => (tokens.dropLast, some true)
  | _ => (tokens, none)

/-- The category before the first equals sign, and what stands behind it. -/
def cutCategory? (text : String) : Option (Category × String) :=
  (Text.cut? '=' text).bind fun p => (Keyword.ofWord? p.1).map fun c => (c, p.2)

/-- Reads the body of a rule link: a category and an equals sign before the rule, or the rule
alone. -/
def read (body : String) : RuleLink :=
  let cut := cutApply (Token.split body)
  let text := Text.spaced cut.1
  if text = "" then { apply := cut.2 }
  else
    match cutCategory? text with
    | some (c, value) =>
      { category := some c, rule := Text.filled? (Token.toValue value), apply := cut.2 }
    | none => { rule := some (Token.toValue text), apply := cut.2 }

end RuleLink

end RollMarkup
