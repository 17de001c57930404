import RollMarkup.Command.Basic

/-!
# A command at the head of a text

A command stands in double brackets behind a slash and one of the known keywords, or in single
brackets behind `&Reference`. Its body ends at the first closing bracket.
-/

namespace RollMarkup

/-- What a command in double brackets begins with. -/
inductive Heading where
  | ofKind (k : Kind)
  /-- A dice roll for one audience. -/
  | rollFor (a : Audience)
  deriving DecidableEq, Repr

namespace Heading

/-- The headings that are known. -/
def all : List Heading :=
  [.ofKind .check, .ofKind .skill, .ofKind .tool, .ofKind .attack, .ofKind .damage, .ofKind .heal,
   .ofKind .roll, .rollFor .everyone, .rollFor .gameMaster, .rollFor .gameMasterBlind,
   .rollFor .oneself, .ofKind .save, .ofKind .concentration, .ofKind .item]

/-- The word behind the opening brackets and the slash. -/
def keyword : Heading → String
  | ofKind k => Keyword.word k
  | rollFor a => a.keyword

/-- The kind of the commands with this heading. -/
def kind : Heading → Kind
  | ofKind k => k
  | rollFor _ => .roll

/-- Reads the body behind a heading. -/
def read (h : Heading) (label : Option String) (body : String) : Command :=
  match h with
  | ofKind k => Command.read k label body
  | rollFor a => .roll (DiceRoll.read (some a) none body)

/-- The heading that a text begins with, and the text behind it. None is the beginning of another,
so there is at most one. -/
def ofChars? (cs : List Char) : Option (Heading × List Char) :=
  all.findSome? fun h => (Text.behind? h.keyword.toList cs).map fun rest => (h, rest)

/-- A text is its heading and what is behind it. -/
theorem eq_append_of_ofChars? {cs rest : List Char} {h : Heading}
    (eq : ofChars? cs = some (h, rest)) : cs = h.keyword.toList ++ rest := by
  obtain ⟨g, _, hg⟩ := List.exists_of_findSome?_eq_some eq
  obtain ⟨r, hr, e⟩ := Option.map_eq_some_iff.mp hg
  obtain ⟨rfl, rfl⟩ := Prod.mk.inj e
  exact Text.behind?_eq_some_iff.mp hr

end Heading

/-- A command at the head of a text. -/
structure Match where
  kind : Kind
  command : Command
  /-- The characters of the command. -/
  text : List Char
  /-- A label that stands behind the command and has no meaning for it. -/
  skipped : List Char
  /-- The text behind both. -/
  rest : List Char

namespace Match

/-- The text in braces that a text begins with, and the text behind the braces. -/
def label? : List Char → Option (List Char × List Char)
  | '\x7b' :: cs => Text.upTo? '\x7d' ['\x7d'] cs
  | _ => none

/-- A label with its braces. -/
def braced (label : List Char) : List Char :=
  '\x7b' :: label ++ ['\x7d']

/-- What opens a command in double brackets, before its keyword. -/
def opening : List Char :=
  ['[', '[', '/']

/-- What opens a rule link. -/
def linkOpening : List Char :=
  "&Reference[".toList

/-- The match of a command in double brackets, given what is behind the brackets. A label belongs
to the command if it is a plain dice roll. -/
def ofParts (h : Heading) (body behind : List Char) : Match :=
  let text := opening ++ h.keyword.toList ++ body ++ [']', ']']
  let read (label : Option String) : Command := h.read label (String.ofList (Text.trim body))
  match label? behind with
  | none => ⟨h.kind, read none, text, [], behind⟩
  | some (label, rest) =>
    if h = .ofKind .roll then
      ⟨h.kind, read (some (String.ofList label)), text ++ braced label, [], rest⟩
    else ⟨h.kind, read none, text, braced label, rest⟩

/-- A command in double brackets at the head of a text. -/
def bracketed? (cs : List Char) : Option Match :=
  (Text.behind? opening cs).bind fun opened =>
    (Heading.ofChars? opened).bind fun headed =>
      (Text.upTo? ']' [']', ']'] headed.2).map fun closed => ofParts headed.1 closed.1 closed.2

/-- A rule link at the head of a text. -/
def link? (cs : List Char) : Option Match :=
  (Text.behind? linkOpening cs).bind fun opened =>
    (Text.upTo? ']' [']'] opened).map fun closed =>
      { kind := .reference
        command := .link (RuleLink.read (String.ofList closed.1))
        text := linkOpening ++ closed.1 ++ [']']
        skipped := []
        rest := closed.2 }

/-- A command at the head of a text. -/
def atHead? (cs : List Char) : Option Match :=
  (bracketed? cs).or (link? cs)

/-- A text is its label in braces and what is behind them. -/
theorem eq_append_of_label? {cs label rest : List Char} (h : label? cs = some (label, rest)) :
    cs = braced label ++ rest := by
  unfold label? at h
  split at h
  · simp [braced, Text.eq_append_of_upTo? h]
  · cases h

/-- The parts that a match is made of are all there in it. -/
theorem ofParts_append (h : Heading) (body behind : List Char) :
    (ofParts h body behind).text ++ (ofParts h body behind).skipped ++
        (ofParts h body behind).rest =
      opening ++ h.keyword.toList ++ body ++ [']', ']'] ++ behind := by
  unfold ofParts
  simp only
  split
  · simp
  next label rest eq =>
    rw [eq_append_of_label? eq]
    split <;> simp

/-- A match takes its text, then what it skips, from the front of what it was found in. -/
theorem atHead?_append {cs : List Char} {m : Match} (h : atHead? cs = some m) :
    m.text ++ m.skipped ++ m.rest = cs := by
  rcases Option.or_eq_some_iff.mp h with h | ⟨_, h⟩
  · obtain ⟨opened, ho, h⟩ := Option.bind_eq_some_iff.mp h
    obtain ⟨headed, hh, h⟩ := Option.bind_eq_some_iff.mp h
    obtain ⟨closed, hc, rfl⟩ := Option.map_eq_some_iff.mp h
    rw [ofParts_append, Text.behind?_eq_some_iff.mp ho, Heading.eq_append_of_ofChars? hh,
      Text.eq_append_of_upTo? hc]
    simp
  · obtain ⟨opened, ho, h⟩ := Option.bind_eq_some_iff.mp h
    obtain ⟨closed, hc, rfl⟩ := Option.map_eq_some_iff.mp h
    rw [Text.behind?_eq_some_iff.mp ho, Text.eq_append_of_upTo? hc]
    simp

/-- No match is empty. -/
theorem text_ne_nil {cs : List Char} {m : Match} (h : atHead? cs = some m) : m.text ≠ [] := by
  rcases Option.or_eq_some_iff.mp h with h | ⟨_, h⟩
  · obtain ⟨opened, _, h⟩ := Option.bind_eq_some_iff.mp h
    obtain ⟨headed, _, h⟩ := Option.bind_eq_some_iff.mp h
    obtain ⟨closed, _, rfl⟩ := Option.map_eq_some_iff.mp h
    unfold ofParts
    simp only
    split
    · simp
    · split <;> simp
  · obtain ⟨opened, _, h⟩ := Option.bind_eq_some_iff.mp h
    obtain ⟨closed, _, rfl⟩ := Option.map_eq_some_iff.mp h
    simp

/-- What is behind a match is shorter than what it was found in. -/
theorem length_rest_lt {cs : List Char} {m : Match} (h : atHead? cs = some m) :
    m.rest.length < cs.length := by
  have pos := List.length_pos_iff.mpr (text_ne_nil h)
  rw [← atHead?_append h]
  simp only [List.length_append]
  omega

end Match

end RollMarkup
