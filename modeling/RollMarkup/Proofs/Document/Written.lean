import Mathlib
import RollMarkup.Command.Plain
import RollMarkup.Proofs.Document.Names

/-!
# What is written is found

The text that is written for a command is found as one command of the kind that it was written for, from
its first byte to its last, and so is the text that a plain text or number stands for (`first?_written`).
No text may close the brackets or the braces around it, and there is no command in a roll that is made at
once or in an attack by a bare ability.
-/

namespace RollMarkup

namespace DiceRoll

/-- A roll under a keyword whose texts do not close what they stand in. A description of dice stands in
brackets of its own, so there is none. -/
structure IsEnclosed (r : DiceRoll) : Prop where
  form : r.inlineForm ≠ some .immediate
  formula : ∀ f ∈ r.formula, ']' ∉ f.toList
  description : ∀ d ∈ r.description, ']' ∉ d.toList
  dice : ∀ d ∈ r.dice, ']' ∉ d.formula.toList ∧ d.description = ""
  label : ∀ l ∈ r.label, '\x7d' ∉ l.toList

variable {r : DiceRoll}

theorem IsEnclosed.closed_diceText (h : r.IsEnclosed) : ']' ∉ r.diceText.toList := by
  unfold diceText
  split
  · cases hf : r.formula with
    | none => simp
    | some f => exact h.formula f hf
  · refine Token.not_mem_intercalate (by decide) fun t ht => ?_
    obtain ⟨d, hd, rfl⟩ := List.mem_map.mp ht
    obtain ⟨hformula, hdescription⟩ := h.dice d hd
    rwa [DescribedDice.text, if_pos hdescription]

theorem IsEnclosed.isReadable_chat (h : r.IsEnclosed) (hchat : r.inlineForm = none) :
    Command.IsReadable .roll (.roll r) := by
  have closed : ∀ p ∈ r.diceText :: ((Text.filled r.description).map ("# " ++ ·)).toList,
      ']' ∉ p.toList := by
    intro p hp
    rcases List.mem_cons.mp hp with rfl | hp
    · exact h.closed_diceText
    · obtain ⟨d, hd, rfl⟩ := Option.map_eq_some_iff.mp (Option.mem_toList.mp hp)
      simpa using h.description d (Text.filled_eq_some.mp hd).1
  have hfound := Occurrence.first?_bracketed (heading_mem r.audience) closed
  rw [kind_heading, ← write_chat hchat] at hfound
  exact ⟨_, hfound⟩

theorem IsEnclosed.isReadable_inline (h : r.IsEnclosed) (hinline : r.inlineForm = some .deferred) :
    Command.IsReadable .roll (.roll r) := by
  have closed : ∀ p ∈ [r.diceText], ']' ∉ p.toList := by
    intro p hp
    rw [List.mem_singleton.mp hp]
    exact h.closed_diceText
  cases hl : Text.filled r.label with
  | none =>
    have hfound := Occurrence.first?_bracketed (h := .ofKind .roll) (by decide) closed
    have hkeyword : (Heading.ofKind .roll).keyword = "roll" := rfl
    rw [hkeyword, ← write_unlabelled hinline hl] at hfound
    exact ⟨_, hfound⟩
  | some l =>
    have hfound := Occurrence.first?_labelled closed (h.label l (Text.filled_eq_some.mp hl).1)
    dsimp only at hfound
    rw [← write_labelled hinline hl] at hfound
    exact ⟨_, hfound⟩

/-- An enclosed roll is found as a whole. -/
theorem IsEnclosed.isReadable (h : r.IsEnclosed) : Command.IsReadable .roll (.roll r) := by
  cases hform : r.inlineForm with
  | none => exact h.isReadable_chat hform
  | some f =>
    cases f with
    | deferred => exact h.isReadable_inline hform
    | immediate => exact absurd hform h.form

end DiceRoll

namespace Command

variable {c : Command} {k : Kind}

/-- A command whose texts do not close what they stand in. -/
def IsEnclosed : Command → Prop
  | roll r => r.IsEnclosed
  | c => ∀ t ∈ c.texts, ']' ∉ t.toList

/-- The kind under which a command is written: the one that is asked for, if it fits. -/
def writtenKind (k : Kind) (c : Command) : Kind :=
  if c.fits k then k else c.kind

theorem fits_kind (c : Command) : c.fits c.kind = true := by
  cases c <;> rfl

/-- A command fits the kind that it is written under. -/
theorem fits_writtenKind (k : Kind) (c : Command) : c.fits (c.writtenKind k) = true := by
  unfold writtenKind
  split
  · assumption
  · exact c.fits_kind

/-- A kind that does not fit counts for nothing. -/
theorem write_writtenKind (k : Kind) (c : Command) : c.write (c.writtenKind k) = c.write k := by
  cases c <;> cases k <;> rfl

/-- Only checks and saving throws fit more than one kind. -/
theorem eq_kind_of_fits {j : Kind} (h : c.fits k = true) (hj : c.kind = j) (hcheck : j ≠ .check)
    (hsave : j ≠ .save) : k = j := by
  have hk : (empty k).kind = c.kind := of_decide_eq_true h
  rw [← hj, ← hk] at hcheck hsave ⊢
  revert hcheck hsave
  cases k <;> decide

/-- An enclosed command is found under every kind that it fits. -/
theorem IsEnclosed.isReadable (h : c.IsEnclosed) (hk : c.fits k = true) : c.IsReadable k := by
  cases c with
  | check c => exact Check.isReadable (isKind_check hk) h
  | save s => exact Save.isReadable (isKind_save hk) h
  -- every other command fits its own kind only
  | attack a =>
    obtain rfl : k = .attack := eq_kind_of_fits hk rfl (by decide) (by decide)
    exact Attack.isReadable h
  | damage d =>
    obtain rfl : k = .damage := eq_kind_of_fits hk rfl (by decide) (by decide)
    exact Damage.isReadable h
  | heal l =>
    obtain rfl : k = .heal := eq_kind_of_fits hk rfl (by decide) (by decide)
    exact Heal.isReadable h
  | item i =>
    obtain rfl : k = .item := eq_kind_of_fits hk rfl (by decide) (by decide)
    exact Item.isReadable h
  | roll r =>
    obtain rfl : k = .roll := eq_kind_of_fits hk rfl (by decide) (by decide)
    exact DiceRoll.IsEnclosed.isReadable h
  | link r =>
    obtain rfl : k = .reference := eq_kind_of_fits hk rfl (by decide) (by decide)
    exact RuleLink.isReadable h

end Command

namespace Plain

variable {p : Plain} {k : Kind}

/-- Every kind but that of a rule link is the keyword of a command in double brackets. -/
theorem heading_mem (hk : k ≠ .reference) : Heading.ofKind k ∈ Heading.all := by
  revert hk
  cases k <;> decide

/-- A plain text is found behind the keyword of a kind. -/
theorem exists_first?_bracketed (hk : k ≠ .reference) {text : String} (closed : ']' ∉ text.toList) :
    ∃ d, Occurrence.first? (bracketed (Keyword.word k) [text]) =
      some (Occurrence.whole k d (bracketed (Keyword.word k) [text])) := by
  have hparts : ∀ t ∈ [text], ']' ∉ t.toList := by
    intro t ht
    rwa [List.mem_singleton.mp ht]
  exact ⟨_, Occurrence.first?_bracketed (heading_mem hk) hparts⟩

/-- An attack by a bare ability has no keyword. Every other plain value is found as an attack. -/
theorem exists_first?_writeAttack (closed : ']' ∉ p.toText.toList)
    (hability : ∀ s, p = .text s → Ability.isListed s = false) :
    ∃ d, Occurrence.first? p.writeAttack = some (Occurrence.whole .attack d p.writeAttack) := by
  cases p with
  | text s =>
    have hwrite : (text s).writeAttack = bracketed (Keyword.word Kind.attack) [s] := by
      rw [writeAttack, hability s rfl]
      rfl
    rw [hwrite]
    exact exists_first?_bracketed (by decide) closed
  | number n =>
    exact exists_first?_bracketed (k := .attack) (by decide) (Numeral.not_mem_writeSigned n (.inr rfl))

/-- What a plain value stands for is found as a command of its kind. -/
theorem exists_first?_write (closed : ']' ∉ p.toText.toList)
    (hability : k = .attack → ∀ s, p = .text s → Ability.isListed s = false) :
    ∃ d, Occurrence.first? (p.write k) = some (Occurrence.whole k d (p.write k)) := by
  cases k with
  | attack => exact exists_first?_writeAttack closed (hability rfl)
  | reference => exact ⟨_, Occurrence.first?_enclosed closed⟩
  | check | skill | tool | damage | heal | save | concentration | item | roll =>
    exact exists_first?_bracketed (by decide) closed

/-- The check that a plain value stands for is found as a check, whatever kind is asked for. -/
theorem exists_first?_writeCheck (k : Kind) (closed : ']' ∉ p.toText.toList) :
    ∃ d, Occurrence.first? (p.writeCheck k) =
      some (Occurrence.whole ((Command.check {}).writtenKind k) d (p.writeCheck k)) := by
  cases k with
  | skill | tool => exact exists_first?_bracketed (by decide) closed
  | _ => exact exists_first?_bracketed (k := .check) (by decide) closed

end Plain

namespace Occurrence

/-- What is written of an enclosed command is found as one command, of the kind that was asked for if it
fits, and so is what is written of a plain text or number. -/
theorem first?_written :
    (∀ (k : Kind) (c : Command), c.IsEnclosed →
      ∃ d, first? (c.write k) = some (whole (c.writtenKind k) d (c.write k))) ∧
    (∀ (k : Kind) (p : Plain), ']' ∉ p.toText.toList →
      (k = .attack → ∀ s, p = .text s → Ability.isListed s = false) →
        ∃ d, first? (p.write k) = some (whole k d (p.write k))) ∧
    ∀ (k : Kind) (p : Plain), ']' ∉ p.toText.toList →
      ∃ d, first? (p.writeCheck k) =
        some (whole ((Command.check {}).writtenKind k) d (p.writeCheck k)) := by
  refine ⟨fun k c h => ?_, fun k p closed hability => ?_, fun k p closed => ?_⟩
  · rw [← Command.write_writtenKind k c]
    exact h.isReadable (c.fits_writtenKind k)
  · exact Plain.exists_first?_write closed hability
  · exact Plain.exists_first?_writeCheck k closed

/-- A name, a label and an attack may look like commands, and a check may be asked for as something
else. -/
theorem first?_written_nested :
    (∃ d, first? "[[/item The [[/save of &Reference[]]" =
      some (whole .item d "[[/item The [[/save of &Reference[]]")) ∧
    (∃ d, first? "[[/roll 2d6]]{[[/heal]]}" =
      some (whole .roll d "[[/roll 2d6]]{[[/heal]]}")) ∧
    (∃ d, first? "[[/attack 10 [[/roll]]" = some (whole .attack d "[[/attack 10 [[/roll]]")) ∧
    ∃ d, first? "[[/check 10 [[/roll]]" = some (whole .check d "[[/check 10 [[/roll]]") := by
  obtain ⟨hcommand, hplain, hcheck⟩ := first?_written
  have hitem : Command.IsEnclosed (.item { name := some "The [[/save of &Reference[" }) := by
    unfold Command.IsEnclosed
    decide
  have hroll : DiceRoll.IsEnclosed
      { formula := some "2d6", inlineForm := some .deferred, label := some "[[/heal]]" } :=
    { form := by decide
      formula := by decide
      description := by decide
      dice := by decide
      label := by decide }
  refine ⟨hcommand .check _ hitem, hcommand .roll (.roll _) hroll, ?_,
    hcheck .heal (.text "10 [[/roll") (by decide)⟩
  refine hplain .attack (.text "10 [[/roll") (by decide) fun _ s h => ?_
  obtain rfl := Plain.text.inj h
  decide

end Occurrence

end RollMarkup
