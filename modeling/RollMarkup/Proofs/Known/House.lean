import Mathlib
import RollMarkup.Document.Finding
import RollMarkup.Proofs.Token.Entry
import RollMarkup.Proofs.Vocabulary.Naming

/-!
# What a house knows

A house that accepts a document knows every name in its commands (`accepts_iff`). Whether a name is
known does not change when it is made canonical.
-/

namespace RollMarkup

namespace House

variable {h : House}

/-- Every house knows the abilities of the rules. -/
theorem knows_ability (a : Ability) : h.knows .ability a.name = true := by
  rw [knows, Ability.find?_name]
  rfl

/-- Every house knows the skills of the rules. -/
theorem knows_skill (k : Skill) : h.knows .skill k.name = true := by
  rw [knows, Skill.find?_name]
  rfl

/-- A house knows the canonical name of an ability if it knows the given one. -/
theorem knows_ability_canonical (s : String) :
    h.knows .ability (Ability.canonical s) = h.knows .ability s := by
  cases hs : Ability.find? s with
  | none => rw [Ability.canonical_of_unknown hs]
  | some a =>
    rw [Ability.canonical_of_find? hs, knows_ability, knows, hs]
    rfl

/-- A house knows the canonical name of a skill if it knows the given one. -/
theorem knows_skill_canonical (s : String) :
    h.knows .skill (Skill.canonical s) = h.knows .skill s := by
  cases hs : Skill.find? s with
  | none => rw [Skill.canonical_of_unknown hs]
  | some k =>
    rw [Skill.canonical_of_find? hs, knows_skill, knows, hs]
    rfl

/-- The parts of a known name are known: there is only one, if it holds no slash. -/
theorem knows_valueList {field : NameField} {names : List String}
    (known : ∀ n ∈ names, n ≠ "" ∧ h.knows field n = true)
    (parts : ∀ n ∈ names, '/' ∈ n.toList → ∀ p ∈ Entry.valueList n, h.knows field p = true) :
    ∀ p ∈ Entry.valueList ("/".intercalate names), h.knows field p = true := by
  intro p hp
  rw [Entry.valueList_list] at hp
  obtain ⟨n, hn, hp⟩ := List.mem_flatMap.mp hp
  by_cases hslash : '/' ∈ n.toList
  · exact parts n hn hslash p hp
  · obtain ⟨hne, hknown⟩ := known n hn
    rw [Entry.valueList_of_no_slash hne hslash] at hp
    rw [List.mem_singleton.mp hp]
    exact hknown

/-- A house that knows every name in a command. -/
def KnowsNames (h : House) (c : Command) : Prop :=
  ∀ n ∈ c.names, h.knows n.1 n.2 = true

/-- A house that finds no unknown name in a document. -/
def Accepts (h : House) (document : String) : Prop :=
  ∀ f ∈ h.findings document, ∀ field name, f.complaint ≠ .unknownName field name

/-- A house complains about a name exactly if the command has it and the house does not know it. -/
theorem mem_unknownNames {c : Command} {field : NameField} {name : String} :
    .unknownName field name ∈ h.unknownNames c ↔
      (field, name) ∈ c.names ∧ h.knows field name = false := by
  simp only [unknownNames, List.mem_map, List.mem_filter, Bool.not_eq_true', Prod.exists,
    Complaint.unknownName.injEq]
  constructor
  · rintro ⟨f, n, hn, rfl, rfl⟩
    exact hn
  · intro hn
    exact ⟨field, name, hn, rfl, rfl⟩

/-- A document is accepted if and only if every name in its commands is known. -/
theorem accepts_iff {document : String} :
    h.Accepts document ↔ ∀ o ∈ Occurrence.scan document, h.KnowsNames o.command := by
  constructor
  · intro accepted o ho n hn
    by_contra hunknown
    have hcomplaint : Complaint.unknownName n.1 n.2 ∈ h.complaints o :=
      List.mem_append_right _ (mem_unknownNames.mpr ⟨hn, by simpa using hunknown⟩)
    have hfinding : ⟨o.start, o.stop, o.text, .unknownName n.1 n.2⟩ ∈ h.findings document :=
      List.mem_flatMap.mpr ⟨o, ho, List.mem_map.mpr ⟨_, hcomplaint, rfl⟩⟩
    exact accepted _ hfinding n.1 n.2 rfl
  · intro known f hf field name hcomplaint
    obtain ⟨o, ho, hf⟩ := List.mem_flatMap.mp hf
    obtain ⟨c, hc, rfl⟩ := List.mem_map.mp hf
    obtain rfl : c = .unknownName field name := hcomplaint
    rcases List.mem_append.mp hc with hc | hc
    · split at hc
      · cases hc
      · cases List.mem_singleton.mp hc
    · obtain ⟨hn, hunknown⟩ := mem_unknownNames.mp hc
      have hknown := known o ho _ hn
      rw [hunknown] at hknown
      cases hknown

end House

end RollMarkup
