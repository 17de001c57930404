import Mathlib
import RollMarkup.Proofs.Command.DiceRoll

/-!
# Canonical texts of dice rolls

The canonical text of a dice roll that was read is read as that roll again, but for what is not written
inside running text (`isKept_read`), and so it is its own canonical text (`isFixed_read`). Both hold under
each keyword of a roll, with a label and without one.
-/

namespace RollMarkup

namespace DiceRoll

variable {formula description : Option String}

/-- A formula that stands before the description in a body without closing brackets. -/
def IsFormula (f : String) : Prop :=
  IsTrimmed f ∧ '#' ∉ f.toList ∧ ']' ∉ f.toList

/-- A description that stands in a body without closing brackets. -/
def IsDescription (d : String) : Prop :=
  IsTrimmed d ∧ ']' ∉ d.toList

/-- A formula and a description are read of a body without closing brackets. -/
theorem isFormula_read (audience : Option Audience) {body : String} (h : ']' ∉ body.toList) :
    (∀ f ∈ (read audience none body).formula, IsFormula f) ∧
      ∀ d ∈ (read audience none body).description, IsDescription d := by
  unfold read
  dsimp only
  cases hcut : Text.cutFirst? '#' body.toList with
  | none =>
    refine ⟨fun f hf => ?_, fun d hd => by cases hd⟩
    obtain ⟨htrim, hmem⟩ := trimmed?_eq_some hf
    have hnum := Text.cutFirst?_eq_none_iff.mp hcut
    exact ⟨htrim, fun hc => hnum (hmem _ hc), fun hc => h (hmem _ hc)⟩
  | some p =>
    obtain ⟨h1, h2⟩ := Text.mem_of_cutFirst? hcut
    refine ⟨fun f hf => ?_, fun d hd => ?_⟩
    · obtain ⟨htrim, hmem⟩ := trimmed?_eq_some hf
      exact ⟨htrim, fun hc => Text.not_mem_of_cutFirst? hcut (hmem _ hc),
        fun hc => h (h1 _ (hmem _ hc))⟩
    · obtain ⟨htrim, hmem⟩ := trimmed?_eq_some hd
      exact ⟨htrim, fun hc => h (h2 _ (hmem _ hc))⟩

/-! ### What is written again -/

/-- The heading under which a roll in the chat is written. -/
def heading (audience : Option Audience) : Heading :=
  audience.elim (.ofKind .roll) .rollFor

theorem heading_mem (audience : Option Audience) : heading audience ∈ Heading.all := by
  rcases audience with _ | _ | _ | _ | _ <;> decide

/-- The heading has the keyword that the audience is written with. -/
theorem keyword_heading (audience : Option Audience) :
    (heading audience).keyword = keyword audience := by
  cases audience <;> rfl

theorem kind_heading (audience : Option Audience) : (heading audience).kind = .roll := by
  cases audience <;> rfl

section Write

variable {r : DiceRoll}

/-- A roll in the chat is written behind the keyword for its audience. -/
theorem write_chat (h : r.inlineForm = none) :
    r.write = bracketed (heading r.audience).keyword
      (r.diceText :: ((Text.filled r.description).map ("# " ++ ·)).toList) := by
  rw [write, h, keyword_heading]

variable (h : r.inlineForm = some .deferred)

include h

/-- Inside running text, a roll without a label is written as its dice. -/
theorem write_unlabelled (hl : Text.filled r.label = none) :
    r.write = bracketed "roll" [r.diceText] := by
  rw [write, h, labelText, hl]
  exact String.append_empty

/-- Inside running text, a label stands in braces behind the brackets. -/
theorem write_labelled {l : String} (hl : Text.filled r.label = some l) :
    r.write = bracketed "roll" [r.diceText] ++ ("\x7b" ++ l ++ "\x7d") := by
  rw [write, h, labelText, hl]

end Write

/-- What the canonical text of a roll says. Inside running text there is no place for a description, and
without a label nothing tells that the roll is inside running text. -/
def recovered (r : DiceRoll) : DiceRoll :=
  match r.inlineForm with
  | none => r
  | some _ => { r with description := none, inlineForm := r.label.map fun _ => .deferred }

/-- A roll whose canonical text is read as what that text says, and has the same canonical text then. -/
def IsKept (r : DiceRoll) : Prop :=
  Occurrence.first? r.write = some (Occurrence.whole .roll (.roll r.recovered) r.write) ∧
    r.recovered.write = r.write

/-- A roll in the chat is read as it was written. -/
theorem isKept_chat {audience : Option Audience} (hf : ∀ f ∈ formula, IsFormula f)
    (hd : ∀ d ∈ description, IsDescription d) :
    IsKept { formula, description, audience } := by
  let r : DiceRoll := { formula, description, audience }
  have hfilled : Text.filled description = description := by
    cases description with
    | none => rfl
    | some d => exact Text.filled_eq_some.mpr ⟨rfl, (hd d rfl).1.ne_empty⟩
  have hwrite : r.write = bracketed (heading audience).keyword
      (formula.getD "" :: (description.map ("# " ++ ·)).toList) := by
    rw [write_chat rfl, hfilled]
    rfl
  have closed : ∀ p ∈ formula.getD "" :: (description.map ("# " ++ ·)).toList, ']' ∉ p.toList := by
    intro p hp
    rcases List.mem_cons.mp hp with rfl | hp
    · cases formula with
      | none => decide
      | some f => exact (hf f rfl).2.2
    · obtain ⟨d, hd', rfl⟩ := Option.map_eq_some_iff.mp (Option.mem_toList.mp hp)
      simpa using (hd d hd').2
  have hfound := Occurrence.first?_bracketed (heading_mem audience) closed
  have hread : (heading audience).read none (String.ofList (Text.trim (row formula description).toList))
      = .roll r := by
    have h := read_row audience (fun f h => ⟨(hf f h).1, (hf f h).2.1⟩)
      fun d h => (hd d h).1
    cases audience <;> exact congrArg Command.roll h
  rw [kind_heading, ← hwrite] at hfound
  exact ⟨hfound.trans (congrArg (fun c => some (Occurrence.whole .roll c r.write)) hread), rfl⟩

/-- A roll inside running text is read as it was written, but for what is not written. -/
theorem isKept_inline {label : Option String} (hf : ∀ f ∈ formula, IsFormula f)
    (hl : ∀ l ∈ label, l ≠ "" ∧ '\x7d' ∉ l.toList) :
    IsKept { formula, description, inlineForm := some .deferred, label } := by
  have closed : ∀ p ∈ [formula.getD ""], ']' ∉ p.toList := by
    intro p hp
    rw [List.mem_singleton.mp hp]
    cases formula with
    | none => decide
    | some f => exact (hf f rfl).2.2
  have hread := read_row none (fun f h => ⟨(hf f h).1, (hf f h).2.1⟩)
    (fun (d : String) (hd : d ∈ none) => by cases hd)
  -- a description is not written beside this form, so that both texts are those without it
  cases label with
  | none =>
    let r : DiceRoll := { formula, description, inlineForm := some .deferred }
    have hfound := Occurrence.first?_bracketed (h := .ofKind .roll) (by decide) closed
    have hwrite : r.write = bracketed "roll" [formula.getD ""] := write_unlabelled rfl rfl
    have hkeyword : (Heading.ofKind .roll).keyword = "roll" := rfl
    rw [hkeyword, ← hwrite] at hfound
    exact ⟨hfound.trans (congrArg (fun s => some (Occurrence.whole .roll (.roll s) r.write)) hread),
      hwrite.symm⟩
  | some l =>
    obtain ⟨hne, hbrace⟩ := hl l rfl
    have hfilled : Text.filled (some l) = some l := Text.filled_eq_some.mpr ⟨rfl, hne⟩
    have hwrite : ∀ d : Option String,
        DiceRoll.write { formula, description := d, inlineForm := some .deferred, label := some l } =
          bracketed "roll" [formula.getD ""] ++ ("\x7b" ++ l ++ "\x7d") :=
      fun d => write_labelled rfl hfilled
    have hfound := Occurrence.first?_labelled closed hbrace
    have hlabelled : Command.read .roll (some l)
        (String.ofList (Text.trim (Text.spaced ([formula.getD ""].filter (· ≠ ""))).toList)) =
          .roll { formula, inlineForm := some .deferred, label := some l } := by
      have h := read_label none (some l)
        (String.ofList (Text.trim (row formula none).toList))
      rw [hread, hfilled] at h
      exact congrArg Command.roll h
    dsimp only at hfound
    rw [hlabelled, ← hwrite description] at hfound
    exact ⟨hfound, (hwrite none).trans (hwrite description).symm⟩

/-- A label marks a roll inside running text, where there is no audience. -/
theorem isKept_read {audience : Option Audience} {label : Option String} {body : String}
    (closed : ']' ∉ body.toList) (hl : ∀ l ∈ label, '\x7d' ∉ l.toList)
    (h : audience = none ∨ label = none) : IsKept (read audience label body) := by
  obtain ⟨hf, hd⟩ := isFormula_read audience closed
  rw [read_label]
  cases label with
  | none => exact isKept_chat hf hd
  | some l =>
    obtain rfl := h.resolve_right (by simp)
    exact isKept_inline hf fun l' h' => by
      obtain ⟨hs, hne⟩ := Text.filled_eq_some.mp h'
      exact ⟨hne, hl l' hs⟩

/-- The canonical text of a dice roll that was read is fixed. -/
theorem isFixed_read {audience : Option Audience} {label : Option String} {body : String}
    (closed : ']' ∉ body.toList) (hl : ∀ l ∈ label, '\x7d' ∉ l.toList)
    (h : audience = none ∨ label = none) :
    Command.IsFixed .roll (.roll (read audience label body)) := by
  obtain ⟨hfound, hwrite⟩ := isKept_read closed hl h
  exact ⟨_, hfound, hwrite⟩

end DiceRoll

end RollMarkup
