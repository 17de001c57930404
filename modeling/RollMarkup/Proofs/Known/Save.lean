import Mathlib
import RollMarkup.Proofs.Command.Save
import RollMarkup.Proofs.Known.House

/-!
# Known names in saving throws

A house that knows the names of a saving throw knows those that are read of its canonical text
(`knowsNames_read`), if it knows the parts of each name that falls apart there (`IsKnownAgain`).
-/

namespace RollMarkup

namespace Save

variable {h : House} {s : Save}

/-! ### What is read -/

/-- A saving throw that is being read has known names only. -/
def Draft.IsKnown (h : House) (d : Draft) : Prop :=
  ∀ n ∈ d.abilityList, h.knows .ability n = true

theorem Draft.isKnown_empty : Draft.IsKnown h {} := by
  rintro _ ⟨⟩

theorem Draft.IsKnown.knowsNames {d : Draft} (hd : d.IsKnown h) :
    h.KnowsNames (.save d.finish) := by
  rintro ⟨field, name⟩ hn
  simp only [Command.names, Draft.finish, Selection.values_ofList?, List.mem_map,
    Prod.mk.injEq] at hn
  obtain ⟨n, hn, rfl, rfl⟩ := hn
  exact hd n hn

theorem Draft.IsKnown.append {d : Draft} (hd : d.IsKnown h) {ns : List String}
    (hn : ∀ n ∈ ns, h.knows .ability n = true) :
    IsKnown h { d with abilityList := d.abilityList ++ ns } :=
  List.forall_mem_append.mpr ⟨hd, hn⟩

/-- An entry whose names are known, if it has any. -/
def IsKnownEntry (h : House) : Entry → Prop
  | ⟨"ability", v⟩ => ∀ n ∈ Entry.valueList v, h.knows .ability n = true
  | _ => True

theorem Draft.IsKnown.put {d : Draft} (hd : d.IsKnown h) {e : Entry} (he : IsKnownEntry h e) :
    (d.put e).IsKnown h := by
  unfold Draft.put
  split
  next v =>
    refine hd.append fun n hn => ?_
    obtain ⟨t, ht, rfl⟩ := List.mem_map.mp hn
    rw [House.knows_ability_canonical]
    exact he t ht
  all_goals exact hd

/-- A word without a key is an ability, a number, or a name that is known. -/
theorem Draft.IsKnown.place {d : Draft} (hd : d.IsKnown h) {t : String}
    (ht : Numeral.read? t = none → h.knows .ability t = true) : (d.place t).IsKnown h := by
  unfold Draft.place
  split
  next a _ => exact hd.append (List.forall_mem_singleton.mpr (House.knows_ability a))
  · split
    next n _ => exact hd
    next hnumber => exact hd.append (List.forall_mem_singleton.mpr (ht hnumber))

/-! ### What is written -/

/-- Whether the names of a saving throw are known where its canonical text has them: each part of a name
with slashes in a list, and without keys names that are words. -/
def IsKnownAgain (h : House) (s : Save) : Prop :=
  if s.positional? = none then
    (∀ t ∈ s.texts, '"' ∉ t.toList) ∧
      ∀ n ∈ s.abilityNames, '/' ∈ n.toList → ∀ p ∈ Entry.valueList n, h.knows .ability p = true
  else ∀ n ∈ s.abilityNames, Token.IsWord n

/-- The abilities that are written are known if the names of the save are. -/
theorem known_abilityNames (known : h.KnowsNames (.save s)) :
    ∀ n ∈ s.abilityNames, h.knows .ability n = true := by
  intro n hn
  obtain ⟨t, ht, rfl⟩ := List.mem_map.mp hn
  rw [House.knows_ability_canonical]
  apply known (.ability, t)
  simp [Command.names, (Selection.mem_filled.mp ht).1]

/-- The names in a body with keys are known. -/
theorem isKnown_entries (known : h.KnowsNames (.save s))
    (parts : ∀ n ∈ s.abilityNames, '/' ∈ n.toList →
      ∀ p ∈ Entry.valueList n, h.knows .ability p = true) :
    (s.entries.foldl Draft.put {}).IsKnown h := by
  have hentries : ∀ e ∈ s.entries, IsKnownEntry h e := by
    apply forall_entries
    · exact House.knows_valueList
        (fun n hn => ⟨abilityNames_ne_empty n hn, known_abilityNames known n hn⟩) parts
    all_goals
      intros
      trivial
  apply List.foldlRecOn (motive := Draft.IsKnown h) _ _ Draft.isKnown_empty
  intro d hd e he
  exact hd.put (hentries e he)

/-- A house that knows the names of a saving throw, also where its canonical text has them, knows the
names that are read of that text. -/
theorem knowsNames_read (known : h.KnowsNames (.save s)) (hs : s.IsKnownAgain h) :
    (∀ p ∈ s.parts, Token.IsWhole p) ∧ h.KnowsNames (.save (read (Text.spaced s.parts))) := by
  unfold IsKnownAgain at hs
  cases hp : s.positional? with
  | none =>
    rw [if_pos hp] at hs
    obtain ⟨hwhole, hread⟩ := read_entries hs.1
    rw [parts_of_keyed hp, hread]
    exact ⟨hwhole, (isKnown_entries known hs.2).knowsNames⟩
  | some ps =>
    rw [if_neg (by simp [hp])] at hs
    obtain ⟨n, rfl, -⟩ := positional?_eq_some hp
    have hwords : ∀ t ∈ s.abilityNames ++ n.toList.map Numeral.write, Token.IsWord t ∧
        (Numeral.read? t = none → h.knows .ability t = true) := by
      intro t ht
      rcases List.mem_append.mp ht with ht | ht
      · exact ⟨hs t ht, fun _ => known_abilityNames known t ht⟩
      · obtain ⟨m, -, rfl⟩ := List.mem_map.mp ht
        -- a number is taken for the difficulty and names nothing
        refine ⟨(Numeral.isPlain_write m).1, fun hnone => ?_⟩
        rw [Numeral.read?_write] at hnone
        cases hnone
    have hwhole : ∀ p ∈ s.abilityNames ++ n.toList.map Numeral.write, Token.IsWhole p :=
      fun p hp => (hwords p hp).1.isWhole
    have hfold : Draft.IsKnown h
        ((s.abilityNames ++ n.toList.map Numeral.write).foldl Draft.add {}) := by
      apply List.foldlRecOn (motive := Draft.IsKnown h) _ _ Draft.isKnown_empty
      intro d hd t ht
      obtain ⟨hword, hknown⟩ := hwords t ht
      rw [Draft.add, Entry.ofToken?_word hword]
      exact hd.place hknown
    rw [parts_of_positional? hp, read, Token.split_spaced hwhole]
    exact ⟨hwhole, hfold.knowsNames⟩

end Save

end RollMarkup
