import Mathlib
import RollMarkup.Proofs.Canonical.Attack
import RollMarkup.Proofs.Canonical.Check
import RollMarkup.Proofs.Canonical.Damage
import RollMarkup.Proofs.Canonical.DiceRoll
import RollMarkup.Proofs.Canonical.Heal
import RollMarkup.Proofs.Canonical.Item
import RollMarkup.Proofs.Canonical.RuleLink
import RollMarkup.Proofs.Canonical.Save

/-!
# Canonical texts of the commands of a document

The canonical text of a command that was found in a document is always read as a command of the same
kind, and nothing of it is left over. It is its own canonical text if the command is legible, that is,
if its values can stand where the canonical text has them (`first?_canonical`). Without that it may not
be: a name may be read in another field than the one it was written for (`canonical_not_fixed`).
-/

namespace RollMarkup

namespace Command

/-- The texts that a command has in the tokens of its body. A dice roll has no tokens. -/
def texts : Command → List String
  | check c => c.texts
  | attack a => a.texts
  | damage d => d.texts
  | heal h => h.texts
  | save s => s.texts
  | item i => i.texts
  | roll _ => []
  | link r => r.texts

/-- Whether the texts of a command can stand where its canonical text has them. There is nothing that
takes a quote back out of a token, so none of them may hold one. -/
def IsLegible (k : Kind) (c : Command) : Prop :=
  (∀ t ∈ c.texts, '"' ∉ t.toList) ∧
    match c with
    | check c => c.IsLegible k
    | attack a => a.IsLegible
    | damage d => d.IsLegible
    | heal h => h.IsLegible
    | save s => s.IsLegible
    | item i => i.IsLegible
    | roll _ | link _ => True

/-- A command that keeps its kind when its canonical text is read, and its canonical text as well if it
is legible. -/
def IsKept (k : Kind) (c : Command) : Prop :=
  c.IsReadable k ∧ (c.IsLegible k → c.IsFixed k)

variable {body : String} (closed : ']' ∉ body.toList)

include closed

/-- A check that was read from a closed body is kept. -/
theorem isKept_check {k : Kind} (hk : Check.IsKind k) : IsKept k (.check (Check.read k body)) := by
  obtain ⟨htexts, hdc⟩ := Check.closed_read k closed
  exact ⟨Check.isReadable hk htexts, fun ⟨quotes, h⟩ => Check.isFixed hk htexts hdc quotes h⟩

/-- A saving throw that was read from a closed body is kept. -/
theorem isKept_save {k : Kind} (hk : Save.IsKind k) : IsKept k (.save (Save.read body)) := by
  obtain ⟨htexts, hdc⟩ := Save.closed_read closed
  exact ⟨Save.isReadable hk htexts, fun ⟨quotes, h⟩ => Save.isFixed hk htexts hdc quotes h⟩

/-- An attack that was read from a closed body is kept. -/
theorem isKept_attack : IsKept .attack (.attack (Attack.read body)) := by
  obtain ⟨htexts, hformula⟩ := Attack.closed_read closed
  exact ⟨Attack.isReadable htexts, fun ⟨quotes, h⟩ => Attack.isFixed htexts hformula quotes h⟩

/-- A damage roll that was read from a closed body is kept. -/
theorem isKept_damage : IsKept .damage (.damage (Damage.read body)) := by
  have hclosed := Damage.closed_read closed
  exact ⟨Damage.isReadable hclosed.texts, fun ⟨quotes, h⟩ => Damage.isFixed hclosed quotes h⟩

/-- Healing that was read from a closed body is kept. -/
theorem isKept_heal : IsKept .heal (.heal (Heal.read body)) := by
  have hclosed := Heal.closed_read closed
  exact ⟨Heal.isReadable hclosed.texts, fun ⟨quotes, h⟩ => Heal.isFixed hclosed quotes h⟩

/-- An item link that was read from a closed body is kept. -/
theorem isKept_item : IsKept .item (.item (Item.read body)) := by
  obtain ⟨htexts, hread⟩ := Item.closed_read closed
  exact ⟨Item.isReadable htexts, fun ⟨quotes, h⟩ => Item.isFixed htexts hread quotes h⟩

/-- A rule link that was read from a closed body is kept. -/
theorem isKept_link : IsKept .reference (.link (RuleLink.read body)) := by
  have htexts := RuleLink.closed_read closed
  exact ⟨RuleLink.isReadable htexts, fun ⟨quotes, _⟩ => RuleLink.isFixed htexts quotes⟩

/-- A dice roll that was read from a closed body is kept, if it has no label beside an audience. -/
theorem isKept_roll {audience : Option Audience} {label : Option String}
    (hl : ∀ l ∈ label, '\x7d' ∉ l.toList) (h : audience = none ∨ label = none) :
    IsKept .roll (.roll (DiceRoll.read audience label body)) := by
  have hfixed := DiceRoll.isFixed_read closed hl h
  exact ⟨hfixed.isReadable, fun _ => hfixed⟩

/-- What is read behind a heading is kept. -/
theorem isKept_read {h : Heading} (hh : h ∈ Heading.all) {label : Option String}
    (hl : ∀ l ∈ label, '\x7d' ∉ l.toList) : IsKept h.kind (h.read label body) := by
  cases h with
  | rollFor a => exact isKept_roll closed (fun l hl => by cases hl) (.inr rfl)
  | ofKind k =>
    cases k with
    | check => exact isKept_check closed (.inl rfl)
    | skill => exact isKept_check closed (.inr (.inl rfl))
    | tool => exact isKept_check closed (.inr (.inr rfl))
    | attack => exact isKept_attack closed
    | damage => exact isKept_damage closed
    | heal => exact isKept_heal closed
    | save => exact isKept_save closed (.inl rfl)
    | concentration => exact isKept_save closed (.inr rfl)
    | item => exact isKept_item closed
    | roll => exact isKept_roll closed hl (.inl rfl)
    | reference => exact absurd hh (by decide)

/-- What is read behind a heading holds no closing brackets. -/
theorem closed_read (h : Heading) (label : Option String) :
    ∀ t ∈ (h.read label body).texts, ']' ∉ t.toList := by
  cases h with
  | rollFor a => rintro t ⟨⟩
  | ofKind k =>
    cases k with
    | check | skill | tool => exact (Check.closed_read _ closed).1
    | attack => exact (Attack.closed_read closed).1
    | damage => exact (Damage.closed_read closed).texts
    | heal => exact (Heal.closed_read closed).texts
    | save | concentration => exact (Save.closed_read closed).1
    | item => exact (Item.closed_read closed).1
    | roll => rintro t ⟨⟩
    | reference => exact RuleLink.closed_read closed

end Command

namespace Match

/-- A command in double brackets was read behind its heading, with a label that holds no closing
brace. -/
theorem ofParts_command (h : Heading) (body rest : List Char) :
    (ofParts h body rest).kind = h.kind ∧ ∃ label : Option String,
      (∀ l ∈ label, '\x7d' ∉ l.toList) ∧
        (ofParts h body rest).command = h.read label (String.ofList (Text.trim body)) := by
  cases hl : label? rest with
  | none =>
    simp only [ofParts, hl]
    refine ⟨trivial, none, fun l hl => (by cases hl), rfl⟩
  | some p =>
    obtain ⟨label, behind⟩ := p
    simp only [ofParts, hl]
    split
    · refine ⟨rfl, some (String.ofList label), ?_, rfl⟩
      rintro l ⟨⟩
      rw [String.toList_ofList]
      exact not_mem_of_label? hl
    · exact ⟨rfl, none, fun l hl => (by cases hl), rfl⟩

end Match

namespace Occurrence

/-- A command that was found was read behind its heading, of a body without closing brackets. -/
theorem IsFound.exists_read {o : Occurrence} (h : o.IsFound) :
    ∃ body : String, ']' ∉ body.toList ∧
      ((∃ hd ∈ Heading.all, ∃ label : Option String, (∀ l ∈ label, '\x7d' ∉ l.toList) ∧
          o.kind = hd.kind ∧ o.command = hd.read label body) ∨
        (o.kind = .reference ∧ o.command = .link (RuleLink.read body))) := by
  obtain ⟨n, cs, m, hm, rfl⟩ := h.exists_match
  rcases Match.atHead?_cases hm with ⟨hd, hh, body, rest, closed, rfl⟩ | ⟨body, rest, closed, rfl⟩
  · obtain ⟨hkind, label, hl, hcommand⟩ := Match.ofParts_command hd body rest
    refine ⟨String.ofList (Text.trim body), ?_, .inl ⟨hd, hh, label, hl, hkind, hcommand⟩⟩
    rw [String.toList_ofList]
    exact fun hc => closed (Text.mem_of_mem_trim hc)
  · refine ⟨String.ofList body, ?_, .inr ⟨rfl, rfl⟩⟩
    rwa [String.toList_ofList]

/-- A command that was found holds no closing brackets. -/
theorem IsFound.closed {o : Occurrence} (h : o.IsFound) : ∀ t ∈ o.command.texts, ']' ∉ t.toList := by
  obtain ⟨body, closed, ⟨hd, -, label, -, -, hcommand⟩ | ⟨-, hcommand⟩⟩ := h.exists_read
  · rw [hcommand]
    exact Command.closed_read closed hd label
  · rw [hcommand]
    exact RuleLink.closed_read closed

/-- Every command that was found is kept. -/
theorem IsFound.isKept {o : Occurrence} (h : o.IsFound) : o.command.IsKept o.kind := by
  obtain ⟨body, closed, ⟨hd, hh, label, hl, hkind, hcommand⟩ | ⟨hkind, hcommand⟩⟩ := h.exists_read
  · rw [hkind, hcommand]
    exact Command.isKept_read closed hh hl
  · rw [hkind, hcommand]
    exact Command.isKept_link closed

/-- The canonical text of a command that was found is read as a command of the same kind, which takes
up all of it and has the same canonical text if the first one is legible. -/
theorem first?_canonical {text : String} {o : Occurrence} (h : first? text = some o) :
    ∃ p, first? o.canonical = some p ∧ p.kind = o.kind ∧ p.text = o.canonical ∧
      (o.command.IsLegible o.kind → p.canonical = o.canonical) := by
  obtain ⟨⟨d, hd⟩, hfixed⟩ := IsFound.isKept ⟨text, h⟩
  refine ⟨_, hd, rfl, rfl, fun hl => ?_⟩
  obtain ⟨e, he, hwrite⟩ := hfixed hl
  rw [hd] at he
  obtain rfl : d = e := congrArg Occurrence.command (Option.some.inj he)
  exact hwrite

/-- Two short names are written in full, and what is written stays as it is. -/
theorem first?_canonical_wisdom :
    ∃ o, first? "Make a [[/check ability=wis skill=prc]] now." = some o ∧
      o.command.IsLegible o.kind ∧ o.canonical = "[[/check wisdom perception]]" ∧
        ∃ p, first? o.canonical = some p ∧ p.kind = o.kind ∧ p.text = o.canonical ∧
          p.canonical = o.canonical := by
  let o : Occurrence :=
    { kind := .check
      command := .check { ability := some "wisdom", skills := some (.one "perception") }
      text := "[[/check ability=wis skill=prc]]"
      start := 7
      stop := 39 }
  have hfound : first? "Make a [[/check ability=wis skill=prc]] now." = some o := by
    decide +kernel
  have hlegible : o.command.IsLegible o.kind := by
    refine ⟨by decide, ?_⟩
    show Check.IsLegible _ _
    rw [Check.IsLegible, if_neg (by decide)]
    have hability : Ability.find? "perception" = none := by decide
    refine ⟨fun a ha hf => ?_, fun s hs => ?_⟩
    · obtain rfl : "wisdom" = a := Option.some.inj ha
      exact absurd hf (by decide)
    · obtain rfl : s = "perception" := List.mem_singleton.mp hs
      exact
        { word := by decide
          number := by decide
          canonical := by decide
          ability := fun a h => by
            rw [hability] at h
            cases h
          tool := fun h => by cases h }
  obtain ⟨p, hp, hkind, htext, hcanonical⟩ := first?_canonical hfound
  exact ⟨o, hfound, hlegible, by decide, p, hp, hkind, htext, hcanonical hlegible⟩

/-- A skill with the name of an ability is written without a key, where the name counts as the
ability. -/
theorem canonical_not_fixed :
    ¬ ∀ (text : String) (o : Occurrence), first? text = some o →
      ∃ p, first? o.canonical = some p ∧ p.kind = o.kind ∧ p.canonical = o.canonical := by
  intro h
  have hcanonical : (first? "[[/check skill=arcana/strength]]").map canonical =
      some "[[/check arcana strength]]" := by decide +kernel
  have hagain : (first? "[[/check arcana strength]]").map canonical =
      some "[[/check strength arcana]]" := by decide +kernel
  obtain ⟨o, ho, hwritten⟩ := Option.map_eq_some_iff.mp hcanonical
  obtain ⟨p, hp, -, hfixed⟩ := h _ o ho
  rw [hwritten] at hp hfixed
  rw [hp, Option.map_some, hfixed] at hagain
  exact absurd (Option.some.inj hagain) (by decide)

end Occurrence

end RollMarkup
