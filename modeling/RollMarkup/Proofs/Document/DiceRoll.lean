import Mathlib
import RollMarkup.Proofs.Document.Canonical

/-!
# Dice rolls of a document

The canonical text of a dice roll that was found in a document is found as that roll again
(`first?_canonical_roll`). Only a roll inside running text loses something: its description, and without
a label also its place in the text.
-/

namespace RollMarkup

namespace DiceRoll

/-- A label that is read marks a roll inside running text. -/
theorem inlineForm_of_label {audience : Option Audience} {label : Option String} {body : String}
    (h : (read audience label body).label ≠ none) :
    (read audience label body).inlineForm = some .deferred := by
  cases label with
  | none => exact absurd rfl h
  | some l => rfl

/-- A roll in the chat says all of itself. -/
theorem recovered_chat {r : DiceRoll} (h : r.inlineForm = none) : r.recovered = r := by
  rw [recovered, h]

/-- A label is all that is written of a roll's place inside running text. -/
theorem recovered_inline {r : DiceRoll} (h : r.inlineForm ≠ none) :
    r.recovered =
      { r with description := none, inlineForm := r.label.map fun _ => .deferred } := by
  obtain ⟨f, hf⟩ := Option.ne_none_iff_exists'.mp h
  rw [recovered, hf]

end DiceRoll

namespace Heading

/-- Behind a heading for dice rolls stands a roll, with a label if the heading names no audience. -/
theorem exists_roll {h : Heading} (hk : h.kind = .roll) (label : Option String) (body : String) :
    ∃ (audience : Option Audience) (label' : Option String), (audience = none ∨ label' = none) ∧
      (∀ l ∈ label', l ∈ label) ∧ h.read label body = .roll (DiceRoll.read audience label' body) := by
  cases h with
  | rollFor a => exact ⟨some a, none, .inr rfl, fun l hl => (by cases hl), rfl⟩
  | ofKind k =>
    obtain rfl : k = .roll := hk
    exact ⟨none, label, .inl rfl, fun l hl => hl, rfl⟩

end Heading

namespace Occurrence

/-- A dice roll that was found was read of a body without closing brackets. -/
theorem IsFound.exists_roll {o : Occurrence} (h : o.IsFound) (hk : o.kind = .roll) :
    ∃ (audience : Option Audience) (label : Option String) (body : String),
      ']' ∉ body.toList ∧ (∀ l ∈ label, '\x7d' ∉ l.toList) ∧ (audience = none ∨ label = none) ∧
        o.command = .roll (DiceRoll.read audience label body) := by
  obtain ⟨body, closed, ⟨hd, -, label, hl, hkind, hcommand⟩ | ⟨hkind, -⟩⟩ := h.exists_read
  · obtain ⟨audience, label', hone, hmem, hread⟩ := hd.exists_roll (hkind.symm.trans hk) label body
    exact ⟨audience, label', body, closed, fun l h => hl l (hmem l h), hone, hcommand.trans hread⟩
  · rw [hk] at hkind
    cases hkind

/-- The canonical text of a dice roll is found as a dice roll from its first byte to its last, and that
one has the same canonical text. It is the same roll in the chat; inside running text it has no
description, and without a label it counts as a roll in the chat. -/
theorem first?_canonical_roll {text : String} {o : Occurrence} (h : first? text = some o)
    (hk : o.kind = .roll) :
    ∃ r s : DiceRoll, o.command = .roll r ∧
      first? o.canonical = some (whole .roll (.roll s) o.canonical) ∧
      Command.write .roll (.roll s) = o.canonical ∧
      (r.inlineForm = none → s = r) ∧
      (Text.filled r.label ≠ none → s = { r with description := none }) ∧
      (r.inlineForm ≠ none → r.label = none →
        s = { r with description := none, inlineForm := none }) := by
  obtain ⟨audience, label, body, closed, hl, hone, hcommand⟩ := IsFound.exists_roll ⟨text, h⟩ hk
  let r := DiceRoll.read audience label body
  obtain ⟨hfound, hwrite⟩ : r.IsKept := DiceRoll.isKept_read closed hl hone
  have hcanonical : o.canonical = r.write := by
    rw [canonical, hcommand]
    rfl
  refine ⟨r, r.recovered, hcommand, ?_, ?_, DiceRoll.recovered_chat, fun hlabel => ?_,
    fun hinline hlabel => ?_⟩
  · rw [hcanonical]
    exact hfound
  · rw [hcanonical]
    exact hwrite
  · have hsome : r.label ≠ none := by
      intro hnone
      rw [hnone] at hlabel
      exact hlabel rfl
    have hinline := DiceRoll.inlineForm_of_label hsome
    obtain ⟨l, hl⟩ := Option.ne_none_iff_exists'.mp hsome
    rw [DiceRoll.recovered_inline (by rw [hinline]; simp), hl, hinline]
    rfl
  · rw [DiceRoll.recovered_inline hinline, hlabel]
    rfl

/-- A roll with a label keeps the label and loses the description. -/
theorem first?_canonical_luck :
    ∃ o, first? "Then [[/roll  1d4#Fate # again]]{Luck} decides." = some o ∧ o.kind = .roll ∧
      o.canonical = "[[/roll 1d4]]{Luck}" ∧
      ∃ r s : DiceRoll, o.command = .roll r ∧
        first? o.canonical = some (whole .roll (.roll s) o.canonical) ∧
        Command.write .roll (.roll s) = o.canonical ∧
        (r.inlineForm = none → s = r) ∧
        (Text.filled r.label ≠ none → s = { r with description := none }) ∧
        (r.inlineForm ≠ none → r.label = none →
          s = { r with description := none, inlineForm := none }) := by
  let o : Occurrence :=
    { kind := .roll
      command := .roll
        { formula := some "1d4"
          description := some "Fate # again"
          inlineForm := some .deferred
          label := some "Luck" }
      text := "[[/roll  1d4#Fate # again]]{Luck}"
      start := 5
      stop := 38 }
  have hfound : first? "Then [[/roll  1d4#Fate # again]]{Luck} decides." = some o := by
    decide +kernel
  exact ⟨o, hfound, rfl, by decide, first?_canonical_roll hfound rfl⟩

end Occurrence

end RollMarkup
