import Mathlib
import RollMarkup.Document.Finding
import RollMarkup.Proofs.Document.Enclosed

/-!
# Houses that list more names

A house covers another one if it lists every name that the other lists, or, of the tools, lists none and
so does not check them. It knows every name that the other knows (`knows_of_covers`), and so it finds
nothing in a document that the other does not find there, in the same order (`findings_of_covers`).
-/

namespace RollMarkup

/-- Whether a finding is about the text of a command, and not about a name in it. -/
def Finding.isNonCanonical (f : Finding) : Bool :=
  match f.complaint with
  | .nonCanonical _ _ => true
  | .unknownName _ _ => false

namespace House

/-- Every name of one list is alike to a name of the other. -/
def AreAmong (names others : List String) : Prop :=
  ∀ n ∈ names, ∃ m ∈ others, Text.alike n m = true

instance (names others : List String) : Decidable (AreAmong names others) :=
  inferInstanceAs (Decidable (∀ n ∈ names, ∃ m ∈ others, Text.alike n m = true))

/-- A house that lists every name that the other one lists. Without tools it accepts all of them, so
that a house without tools is covered only by one without tools. -/
structure Covers (h g : House) : Prop where
  skills : AreAmong g.skills h.skills
  abilities : AreAmong g.abilities h.abilities
  tools : h.tools = [] ∨ g.tools ≠ [] ∧ AreAmong g.tools h.tools

variable {g h : House}

/-- What is alike to a name of one list is alike to a name of a list it is among. -/
theorem isAmong_of_areAmong {names others : List String} (hnames : AreAmong names others)
    {s : String} (hs : isAmong names s = true) : isAmong others s = true := by
  obtain ⟨n, hn, hns⟩ := List.any_eq_true.mp hs
  obtain ⟨m, hm, hnm⟩ := hnames n hn
  rw [Text.alike, beq_iff_eq] at hns hnm
  refine List.any_eq_true.mpr ⟨m, hm, ?_⟩
  rw [Text.alike, beq_iff_eq, ← hnm, hns]

/-- What a house knows is known to every house that covers it. -/
theorem knows_of_covers (hc : h.Covers g) {field : NameField} {s : String}
    (hs : g.knows field s = true) : h.knows field s = true := by
  cases field with
  | ability =>
    rw [knows, Bool.or_eq_true] at hs ⊢
    exact hs.imp_right (isAmong_of_areAmong hc.abilities)
  | skill =>
    rw [knows, Bool.or_eq_true] at hs ⊢
    exact hs.imp_right (isAmong_of_areAmong hc.skills)
  | tool =>
    rw [knows, listsTool?] at hs ⊢
    rcases hc.tools with hnone | ⟨hsome, htools⟩
    · rw [if_pos hnone]
      rfl
    · rw [if_neg hsome] at hs
      split
      · rfl
      · exact isAmong_of_areAmong htools hs

/-- The names that a house does not know are among those of a house it covers, in the same order. -/
theorem unknownNames_sublist (hc : h.Covers g) (c : Command) :
    (h.unknownNames c).Sublist (g.unknownNames c) := by
  refine List.Sublist.map _ (List.monotone_filter_right c.names fun n hn => ?_)
  -- what the one does not know, the other does not know either
  have hunknown : ¬ h.knows n.1 n.2 = true := by simpa using hn
  have hg : ¬ g.knows n.1 n.2 = true := fun hg => hunknown (knows_of_covers hc hg)
  simpa using hg

/-- The complaints about a command begin alike, so that the others may be compared alone. -/
theorem findingsAt_sublist (hc : h.Covers g) (o : Occurrence) :
    (h.findingsAt o).Sublist (g.findingsAt o) :=
  List.Sublist.map _ ((List.Sublist.refl _).append (unknownNames_sublist hc o.command))

/-- The findings of a house are among those of a house it covers, in the same order. -/
theorem findings_sublist (hc : h.Covers g) (document : String) :
    (h.findings document).Sublist (g.findings document) :=
  List.Sublist.flatMap_right _ fun o _ => findingsAt_sublist hc o

/-- Whether the text of a command is canonical does not depend on the house. -/
theorem filter_findingsAt (g h : House) (o : Occurrence) :
    (h.findingsAt o).filter Finding.isNonCanonical =
      (g.findingsAt o).filter Finding.isNonCanonical := by
  have hnames : ∀ k : House, ((k.unknownNames o.command).map
      fun c => Finding.mk o.start o.stop o.text c).filter Finding.isNonCanonical = [] := by
    intro k
    rw [List.filter_eq_nil_iff]
    intro f hf
    obtain ⟨c, hmem, rfl⟩ := List.mem_map.mp hf
    obtain ⟨n, -, rfl⟩ := List.mem_map.mp hmem
    exact Bool.false_ne_true
  rw [findingsAt, findingsAt, complaints, complaints, List.map_append, List.map_append,
    List.filter_append, List.filter_append, hnames, hnames]

/-- Two houses find the same texts not canonical. -/
theorem filter_findings (g h : House) (document : String) :
    (h.findings document).filter Finding.isNonCanonical =
      (g.findings document).filter Finding.isNonCanonical := by
  rw [findings, findings, List.filter_flatMap, List.filter_flatMap]
  exact List.flatMap_congr fun o _ => filter_findingsAt g h o

/-- What fails under a house fails under each one that is as strict. -/
theorem fails_of_strict (hstrict : h.strict = true → g.strict = true) {f : Finding}
    (hf : h.fails f = true) : g.fails f = true := by
  rw [fails] at hf ⊢
  split at hf
  · exact hstrict hf
  · rfl

/-- Listing more names only takes findings away. A house that covers another one finds, in any document,
some of the findings of the other in their order, and among them all that are about the text of a
command. If it is not the stricter of the two, it has no more failures. -/
theorem findings_of_covers {g h : House} (hc : h.Covers g) (document : String) :
    (h.findings document).Sublist (g.findings document) ∧
      (h.findings document).filter Finding.isNonCanonical =
        (g.findings document).filter Finding.isNonCanonical ∧
      ((h.strict = true → g.strict = true) →
        (h.findings document).countP h.fails ≤ (g.findings document).countP g.fails) := by
  refine ⟨findings_sublist hc document, filter_findings g h document, fun hstrict => ?_⟩
  calc (h.findings document).countP h.fails
      ≤ (g.findings document).countP h.fails := (findings_sublist hc document).countP_le
    _ ≤ (g.findings document).countP g.fails :=
        List.countP_mono_left fun _ _ => fails_of_strict hstrict

/-- The one house spells its skill in other letters, lists an ability besides, and checks no tools. -/
theorem findings_of_covers_lute :
    let g : House := { skills := ["Sanity"], tools := ["lute"], strict := true }
    let h : House := { skills := ["honor", "SANITY"], abilities := ["honor"], strict := true }
    let text := "[[/check skill=sanity/luck ability=honor tool=lute/harp]]"
    h.Covers g ∧ (h.strict = true → g.strict = true) ∧
      (g.findings text).map Finding.complaint =
        [.nonCanonical text "[[/check ability=honor skill=sanity/luck tool=lute/harp]]",
          .unknownName .ability "honor", .unknownName .skill "luck", .unknownName .tool "harp"] ∧
      (h.findings text).map Finding.complaint =
        [.nonCanonical text "[[/check ability=honor skill=sanity/luck tool=lute/harp]]",
          .unknownName .skill "luck"] ∧
      (h.findings text).Sublist (g.findings text) ∧
      (h.findings text).countP h.fails ≤ (g.findings text).countP g.fails := by
  intro g h text
  let c : Check :=
    { ability := some "honor"
      skills := some (.many ["sanity", "luck"])
      tools := some (.many ["lute", "harp"]) }
  have hc : h.Covers g := ⟨by decide +kernel, by decide +kernel, .inl rfl⟩
  have hfound : Occurrence.first? text = some (Occurrence.whole .check (.check c) text) := by
    decide +kernel
  have hscan : Occurrence.scan text = [Occurrence.whole .check (.check c) text] :=
    Occurrence.scan_text ⟨text, hfound⟩
  obtain ⟨hsublist, -, hcount⟩ := findings_of_covers hc text
  refine ⟨hc, fun _ => rfl, ?_, ?_, hsublist, hcount fun _ => rfl⟩
  · rw [findings, hscan]
    decide +kernel
  · rw [findings, hscan]
    decide +kernel

end House

end RollMarkup
