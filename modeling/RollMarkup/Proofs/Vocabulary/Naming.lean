import Mathlib
import RollMarkup.Field.Choice
import RollMarkup.Proofs.Numeral.Integer
import RollMarkup.Vocabulary.Ability
import RollMarkup.Vocabulary.Skill

/-!
# Canonical names

A canonical name is the name of what it stands for, so that a name made canonical stays as it is
(`IsNaming`). No skill has the name of an ability, and no name is a number.
-/

namespace RollMarkup

/-- A look-up of names gives plain words, and gives each of them for itself. -/
structure IsNaming (look : String → Option String) : Prop where
  isPlain : ∀ s, ∀ e ∈ look s, Token.IsPlain e
  again : ∀ s, ∀ e ∈ look s, look e = some e

namespace IsNaming

variable {look : String → Option String}

/-- A text is called as it is or by a plain word. -/
theorem getD_cases (h : IsNaming look) (s : String) :
    Token.IsPlain ((look s).getD s) ∨ (look s).getD s = s := by
  cases hs : look s with
  | none => exact .inr rfl
  | some e => exact .inl (h.isPlain s e hs)

/-- A name that was looked up is not changed by another look. -/
theorem getD_getD (h : IsNaming look) (s : String) :
    (look ((look s).getD s)).getD ((look s).getD s) = (look s).getD s := by
  cases hs : look s with
  | none => rw [Option.getD_none, hs, Option.getD_none]
  | some e => rw [Option.getD_some, h.again s e hs, Option.getD_some]

theorem not_mem_getD (h : IsNaming look) {s : String} {x : Char} (hx : x = '"' ∨ x = ']')
    (hs : x ∉ s.toList) : x ∉ ((look s).getD s).toList := by
  rcases h.getD_cases s with hp | he
  · exact hp.not_mem hx
  · rwa [he]

theorem getD_ne_empty (h : IsNaming look) {s : String} (hs : s ≠ "") : (look s).getD s ≠ "" := by
  rcases h.getD_cases s with hp | he
  · exact hp.1.1
  · rwa [he]

end IsNaming

namespace Ability

theorem find?_name (a : Ability) : find? a.name = some a := by
  cases a <;> decide

theorem isPlain_name (a : Ability) : Token.IsPlain a.name := by
  cases a <;> decide

theorem isWord_name (a : Ability) : Token.IsWord a.name :=
  (isPlain_name a).1

theorem read?_name (a : Ability) : Numeral.read? a.name = none := by
  cases a <;> decide

theorem read?_shortName (a : Ability) : Numeral.read? a.shortName = none := by
  cases a <;> decide

/-- No number names an ability. -/
theorem find?_of_read? {s : String} {n : Int64} (h : Numeral.read? s = some n) :
    find? s = none := by
  rw [find?, Numeral.lower_of_read? h, Option.or_eq_none_iff, List.find?_eq_none,
    List.find?_eq_none]
  refine ⟨fun a _ ha => ?_, fun a _ ha => ?_⟩
  · rw [← eq_of_beq ha, read?_shortName] at h
    cases h
  · rw [← eq_of_beq ha, read?_name] at h
    cases h

theorem canonical_of_find? {s : String} {a : Ability} (h : find? s = some a) :
    canonical s = a.name := by
  rw [canonical, h, Option.map_some, Option.getD_some]

theorem canonical_of_unknown {s : String} (h : find? s = none) : canonical s = s := by
  rw [canonical, h, Option.map_none, Option.getD_none]

/-- A name made canonical is known as what it was known as before. -/
theorem find?_canonical (s : String) : find? (canonical s) = find? s := by
  cases h : find? s with
  | none => rw [canonical_of_unknown h, h]
  | some a => rw [canonical_of_find? h, find?_name]

theorem isNaming : IsNaming fun s => (find? s).map name where
  isPlain s e he := by
    obtain ⟨a, -, rfl⟩ := Option.map_eq_some_iff.mp he
    exact isPlain_name a
  again s e he := by
    obtain ⟨a, -, rfl⟩ := Option.map_eq_some_iff.mp he
    rw [find?_name, Option.map_some]

theorem canonical_canonical (s : String) : canonical (canonical s) = canonical s :=
  isNaming.getD_getD s

theorem canonical_comp_canonical : canonical ∘ canonical = canonical := by
  funext s
  rw [Function.comp_apply, canonical_canonical]

/-- A canonical name is a plain word or the name it was made from. -/
theorem canonical_cases (s : String) : Token.IsPlain (canonical s) ∨ canonical s = s :=
  isNaming.getD_cases s

theorem not_mem_canonical {s : String} {x : Char} (hx : x = '"' ∨ x = ']') (h : x ∉ s.toList) :
    x ∉ (canonical s).toList :=
  isNaming.not_mem_getD hx h

theorem canonical_ne_empty {s : String} (h : s ≠ "") : canonical s ≠ "" :=
  isNaming.getD_ne_empty h

end Ability

namespace Skill

theorem find?_name (k : Skill) : find? k.name = some k := by
  cases k <;> decide

theorem isPlain_name (k : Skill) : Token.IsPlain k.name := by
  cases k <;> decide

theorem isWord_name (k : Skill) : Token.IsWord k.name :=
  (isPlain_name k).1

theorem read?_name (k : Skill) : Numeral.read? k.name = none := by
  cases k <;> decide

theorem read?_shortName? {k : Skill} {s : String} (h : k.shortName? = some s) :
    Numeral.read? s = none := by
  cases k <;> cases h <;> decide

/-- No number names a skill. -/
theorem find?_of_read? {s : String} {n : Int64} (h : Numeral.read? s = some n) :
    find? s = none := by
  rw [find?, Numeral.lower_of_read? h, Option.or_eq_none_iff, List.find?_eq_none,
    List.find?_eq_none]
  refine ⟨fun k _ hk => ?_, fun k _ hk => ?_⟩
  · rw [read?_shortName? (eq_of_beq hk)] at h
    cases h
  · rw [← eq_of_beq hk, read?_name] at h
    cases h

/-- No skill is called as an ability is. -/
theorem ability_find?_name (k : Skill) : Ability.find? k.name = none := by
  cases k <;> decide

theorem canonical_of_find? {s : String} {k : Skill} (h : find? s = some k) :
    canonical s = k.name := by
  rw [canonical, h, Option.map_some, Option.getD_some]

theorem canonical_of_unknown {s : String} (h : find? s = none) : canonical s = s := by
  rw [canonical, h, Option.map_none, Option.getD_none]

/-- A name made canonical is known as what it was known as before. -/
theorem find?_canonical (s : String) : find? (canonical s) = find? s := by
  cases h : find? s with
  | none => rw [canonical_of_unknown h, h]
  | some k => rw [canonical_of_find? h, find?_name]

theorem isNaming : IsNaming fun s => (find? s).map name where
  isPlain s e he := by
    obtain ⟨k, -, rfl⟩ := Option.map_eq_some_iff.mp he
    exact isPlain_name k
  again s e he := by
    obtain ⟨k, -, rfl⟩ := Option.map_eq_some_iff.mp he
    rw [find?_name, Option.map_some]

theorem canonical_canonical (s : String) : canonical (canonical s) = canonical s :=
  isNaming.getD_getD s

theorem canonical_comp_canonical : canonical ∘ canonical = canonical := by
  funext s
  rw [Function.comp_apply, canonical_canonical]

/-- A canonical name is a plain word or the name it was made from. -/
theorem canonical_cases (s : String) : Token.IsPlain (canonical s) ∨ canonical s = s :=
  isNaming.getD_cases s

theorem not_mem_canonical {s : String} {x : Char} (hx : x = '"' ∨ x = ']') (h : x ∉ s.toList) :
    x ∉ (canonical s).toList :=
  isNaming.not_mem_getD hx h

theorem canonical_ne_empty {s : String} (h : s ≠ "") : canonical s ≠ "" :=
  isNaming.getD_ne_empty h

end Skill

namespace Keyword

/-! ### Words of closed vocabularies -/

/-- A vocabulary in which every value is the one found by its word. -/
class Lawful (α : Type) [Keyword α] : Prop where
  ofWord?_word (a : α) : ofWord? (word a) = some a

instance : Lawful DisplayFormat where
  ofWord?_word f := by cases f <;> rfl

instance : Lawful Edition where
  ofWord?_word e := by cases e <;> rfl

instance : Lawful Healing where
  ofWord?_word h := by cases h <;> rfl

instance : Lawful Audience where
  ofWord?_word a := by cases a <;> rfl

instance : Lawful InlineForm where
  ofWord?_word i := by cases i <;> rfl

/-- A word that names a value is the word of that value. -/
theorem word_of_ofWord? {α : Type} [Keyword α] {s : String} {k : α} (h : ofWord? s = some k) :
    word k = s := by
  unfold ofWord? at h
  simpa using List.find?_some h

theorem isPlain_format (f : DisplayFormat) : Token.IsPlain (word f) := by
  cases f <;> decide

theorem isPlain_edition (e : Edition) : Token.IsPlain (word e) := by
  cases e <;> decide

theorem isPlain_healing (h : Healing) : Token.IsPlain (word h) := by
  cases h <;> decide

end Keyword

end RollMarkup
