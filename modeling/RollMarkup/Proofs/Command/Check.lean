import Mathlib
import RollMarkup.Proofs.Command.Check.Body
import RollMarkup.Proofs.Document.Enclosed

/-!
# Checks are read as they were written

The canonical text of a check with plain names is found in a document as that check
(`first?_write_check`), with its names made canonical.
-/

namespace RollMarkup

namespace Check

variable {kind : Kind} {c : Check}

/-- No part of the body holds a closing bracket that the check does not hold. -/
theorem closed_parts (h : ∀ s ∈ c.texts, ']' ∉ s.toList) : ∀ p ∈ c.parts, ']' ∉ p.toList := by
  cases hb : c.bare? with
  | none =>
    rw [parts_of_keyed hb]
    intro p hp
    obtain ⟨e, he, rfl⟩ := List.mem_map.mp hp
    exact Entry.not_mem_toToken (isPlain_key e he).2.2 (not_mem_entries (.inr rfl) h e he)
  | some ps =>
    rw [parts_of_bare? hb]
    obtain ⟨n, rfl, -, -⟩ := positional?_eq_some (bare?_eq_some hb).2
    intro p hp
    rcases List.mem_append.mp hp with hp | hp
    · rcases List.mem_append.mp hp with hp | hp
      · exact not_mem_abilityName (.inr rfl) h p (Option.mem_toList.mp hp)
      · exact not_mem_skillNames (.inr rfl) h p hp
    · obtain ⟨m, -, rfl⟩ := List.mem_map.mp hp
      exact (Numeral.isPlain_write m).2.2

/-- The kinds under which a check is written and read. -/
def IsKind (kind : Kind) : Prop :=
  kind = .check ∨ kind = .skill ∨ kind = .tool

theorem write_eq (hk : IsKind kind) :
    Command.write kind (.check c) = bracketed (Keyword.word kind) c.parts := by
  rcases hk with rfl | rfl | rfl <;> rfl

theorem heading_mem (hk : IsKind kind) : Heading.ofKind kind ∈ Heading.all := by
  rcases hk with rfl | rfl | rfl <;> decide

/-- The canonical text of a check is found as a whole, if no text in it closes the brackets. -/
theorem isReadable (hk : IsKind kind) (closed : ∀ s ∈ c.texts, ']' ∉ s.toList) :
    Command.IsReadable kind (.check c) :=
  Occurrence.isReadable_of_closed (heading_mem hk) (write_eq hk) (closed_parts closed)

/-- A check whose parts are whole tokens is read from them. -/
theorem first?_of_read (hk : IsKind kind) {d : Check} (closed : ∀ s ∈ c.texts, ']' ∉ s.toList)
    (whole : ∀ p ∈ c.parts, Token.IsWhole p) (hread : read kind (Text.spaced c.parts) = d) :
    Occurrence.first? (Command.write kind (.check c)) =
      some (Occurrence.whole kind (.check d) (Command.write kind (.check c))) := by
  have hcommand : Command.read kind none (Text.spaced c.parts) = .check d := by
    rw [← hread]
    rcases hk with rfl | rfl | rfl <;> rfl
  exact Occurrence.first?_of_parts (heading_mem hk) (write_eq hk) (closed_parts closed) whole hcommand

/-- A check whose names are plain words, and whose other texts hold no quote and no closing bracket.
If no key can tell what a name is, then its word must. -/
structure IsPlain (kind : Kind) (c : Check) : Prop where
  ability : ∀ a ∈ Text.filled c.ability, Token.IsPlain a
  skills : ∀ s ∈ Selection.filled c.skills, Token.IsPlain s
  tools : ∀ t ∈ Selection.filled c.tools, Token.IsPlain t
  vehicle : ∀ v ∈ c.vehicle, '"' ∉ v.toList ∧ ']' ∉ v.toList
  activity : ∀ a ∈ c.activity, '"' ∉ a.toList ∧ ']' ∉ a.toList
  dc : ∀ s, c.dc = some (.formula s) → '"' ∉ s.toList ∧ ']' ∉ s.toList ∧ Numeral.read? s = none
  known : c.hasExtras = false → (∀ a ∈ Text.filled c.ability, (Ability.find? a).isSome) ∧
    ∀ s ∈ Selection.filled c.skills, Ability.find? s = none ∧ Numeral.read? s = none ∧
      (kind = .tool → (Skill.find? s).isSome)

/-- No text of a plain check ends a value or the command. -/
theorem IsPlain.not_mem (h : c.IsPlain kind) {x : Char} (hx : x = '"' ∨ x = ']') :
    ∀ s ∈ c.texts, x ∉ s.toList := by
  have other : ∀ {s : String}, Token.IsQuotable s → x ∉ s.toList := fun hs => hs.not_mem hx
  have empty : x ∉ "".toList := by simp
  intro s hs
  rcases mem_texts.mp hs with hs | hs | hs | hs | hs | hs
  · exact Text.forall_mem_of_filled empty (fun a ha => (h.ability a ha).not_mem hx) s hs
  · exact Selection.forall_mem_values empty (fun t ht => (h.skills t ht).not_mem hx) s hs
  · exact Selection.forall_mem_values empty (fun t ht => (h.tools t ht).not_mem hx) s hs
  · exact other (h.vehicle s hs)
  · obtain ⟨hquote, hbracket, -⟩ := h.dc s (Quantity.eq_of_mem_formula? hs)
    exact other ⟨hquote, hbracket⟩
  · exact other (h.activity s hs)

/-- The skills of a plain check are written as plain words. -/
theorem IsPlain.skillNames (h : c.IsPlain kind) : ∀ s ∈ c.skillNames, Token.IsPlain s := by
  intro s hs
  obtain ⟨t, ht, rfl⟩ := List.mem_map.mp hs
  rcases Skill.canonical_cases t with hp | he
  · exact hp
  · rw [he]
    exact h.skills t ht

/-- The canonical text of a check with plain names is read as that check: with its names made
canonical, without empty values, and without a difficulty beside a lone name and nothing else. -/
theorem first?_write_check (hk : IsKind kind) (h : c.IsPlain kind) :
    Occurrence.first? (Command.write kind (.check c)) =
      some (Occurrence.whole kind (.check c.recovered) (Command.write kind (.check c))) := by
  have hread : (∀ p ∈ c.parts, Token.IsWhole p) ∧
      read kind (Text.spaced c.parts) = c.recovered := by
    cases hb : c.bare? with
    | none =>
      rw [parts_of_keyed hb, recovered_of_keyed hb]
      refine read_keyed kind (h.not_mem (.inl rfl)) (fun s hs => (h.skillNames s hs).2.1)
        (fun t ht => (h.tools t ht).2.1) fun q hq => ?_
      cases q with
      | number n => exact Quantity.isStable_number n
      | formula s => exact Quantity.isStable_formula (h.dc s hq).2.2
    | some ps =>
      obtain ⟨hkeys, hp⟩ := bare?_eq_some hb
      obtain ⟨-, -, hdc, -⟩ := positional?_eq_some hp
      have hextra : c.hasExtras = false := by
        rw [hasExtras, hkeys, hdc]
        rfl
      obtain ⟨ha, hs⟩ := h.known hextra
      rw [parts_of_bare? hb]
      refine read_bare kind hb ?_ ?_
      · intro a hc
        obtain ⟨b, hb, rfl⟩ := Option.map_eq_some_iff.mp hc
        rw [Ability.find?_canonical]
        exact ha b hb
      · intro s hc
        have hplain := h.skillNames s hc
        obtain ⟨t, ht, rfl⟩ := List.mem_map.mp hc
        obtain ⟨hability, hnumber, htool⟩ := hs t ht
        -- a canonical name is no ability and no number, whether it was one of a skill before or not
        have hname : Ability.find? (Skill.canonical t) = none ∧
            Numeral.read? (Skill.canonical t) = none := by
          cases hf : Skill.find? t with
          | none =>
            rw [Skill.canonical_of_unknown hf]
            exact ⟨hability, hnumber⟩
          | some k =>
            rw [Skill.canonical_of_find? hf]
            exact ⟨Skill.ability_find?_name k, Skill.read?_name k⟩
        exact
          { word := hplain.1
            number := hname.2
            canonical := Skill.canonical_canonical t
            ability := fun a hfind => by
              rw [hname.1] at hfind
              cases hfind
            tool := fun hkind _ => by
              rw [Skill.find?_canonical]
              exact htool hkind }
  exact first?_of_read hk (h.not_mem (.inr rfl)) hread.1 hread.2

/-- A lone skill with a difficulty: the one is read by its full name, the other is lost. -/
theorem first?_write_perception :
    IsPlain .skill { skills := some (.one "PRC"), dc := some (.number 15) } ∧
      Occurrence.first? (Command.write .skill
          (.check { skills := some (.one "PRC"), dc := some (.number 15) })) =
        some (Occurrence.whole .skill (.check { skills := some (.one "perception") })
          "[[/skill perception]]") := by
  have h : IsPlain .skill { skills := some (.one "PRC"), dc := some (.number 15) } :=
    { ability := by decide
      skills := by decide
      tools := by decide
      vehicle := by decide
      activity := by decide
      dc := by
        intro s hs
        cases hs
      known := by decide }
  exact ⟨h, first?_write_check (.inr (.inl rfl)) h⟩

end Check

end RollMarkup
