import Mathlib
import RollMarkup.Proofs.Command.Check
import RollMarkup.Proofs.Known.House

/-!
# Known names in checks

A house that knows the names of a check knows those that are read of its canonical text
(`knowsNames_read`), if it knows each of them also where that text moves it to (`IsKnownAgain`):
between slashes a name falls apart, and without a key it may count as an ability, a skill or a tool.
-/

namespace RollMarkup

namespace Check

variable {h : House} {kind : Kind} {c : Check}

/-! ### What is read -/

/-- A check that is being read has known names only. -/
structure Draft.IsKnown (h : House) (d : Draft) : Prop where
  ability : ∀ a ∈ d.ability, h.knows .ability a = true
  skillList : ∀ s ∈ d.skillList, h.knows .skill s = true
  toolList : ∀ t ∈ d.toolList, h.knows .tool t = true

theorem Draft.isKnown_empty : Draft.IsKnown h {} := by
  refine ⟨?_, ?_, ?_⟩ <;> rintro _ ⟨⟩

/-- A check that was read with known names only has no other. -/
theorem Draft.IsKnown.knowsNames {d : Draft} (hd : d.IsKnown h) :
    h.KnowsNames (.check d.finish) := by
  rintro ⟨field, name⟩ hn
  simp only [Command.names, Draft.finish, Selection.values_ofList?, List.mem_append, List.mem_map,
    Prod.mk.injEq, Option.mem_toList] at hn
  rcases hn with (⟨a, ha, rfl, rfl⟩ | ⟨s, hs, rfl, rfl⟩) | ⟨t, ht, rfl, rfl⟩
  · exact hd.ability a ha
  · exact hd.skillList s hs
  · exact hd.toolList t ht

/-- An entry whose names are known in the field of its key. -/
def IsKnownEntry (h : House) : Entry → Prop
  | ⟨"ability", v⟩ => h.knows .ability v = true
  | ⟨"skill", v⟩ => ∀ s ∈ Entry.valueList v, h.knows .skill s = true
  | ⟨"tool", v⟩ => ∀ t ∈ Entry.valueList v, h.knows .tool t = true
  | _ => True

theorem Draft.IsKnown.appendSkills {d : Draft} (hd : d.IsKnown h) {ss : List String}
    (hs : ∀ s ∈ ss, h.knows .skill s = true) :
    IsKnown h { d with skillList := d.skillList ++ ss } :=
  { hd with skillList := List.forall_mem_append.mpr ⟨hd.skillList, hs⟩ }

theorem Draft.IsKnown.appendTools {d : Draft} (hd : d.IsKnown h) {ts : List String}
    (ht : ∀ t ∈ ts, h.knows .tool t = true) : IsKnown h { d with toolList := d.toolList ++ ts } :=
  { hd with toolList := List.forall_mem_append.mpr ⟨hd.toolList, ht⟩ }

theorem Draft.IsKnown.put {d : Draft} (hd : d.IsKnown h) {e : Entry} (he : IsKnownEntry h e) :
    (d.put e).IsKnown h := by
  unfold Draft.put
  split
  next v =>
    refine { hd with ability := ?_ }
    rintro a ⟨⟩
    rw [House.knows_ability_canonical]
    exact he
  next v =>
    refine hd.appendSkills fun s hs => ?_
    obtain ⟨t, ht, rfl⟩ := List.mem_map.mp hs
    rw [House.knows_skill_canonical]
    exact he t ht
  next v => exact hd.appendTools he
  all_goals exact { hd with }

/-- The field that takes a word which is neither an ability, nor a skill, nor a number. -/
def bareField (kind : Kind) : NameField :=
  if kind = .tool then .tool else .skill

/-- A word that is no ability, and is known as what it counts as without a key. -/
def IsKnownWord (h : House) (kind : Kind) (t : String) : Prop :=
  (Skill.find? t).isSome ∨ (Numeral.read? t).isSome ∨ h.knows (bareField kind) t = true

/-- A word without a key is known if it is known as what it counts as. Beside an ability a further one
counts as a skill. -/
theorem Draft.IsKnown.place {d : Draft} (hd : d.IsKnown h) {t : String}
    (hability : ∀ a, Ability.find? t = some a → d.ability = none ∨ h.knows .skill a.name = true)
    (hword : Ability.find? t = none → IsKnownWord h kind t) : (d.place kind t).IsKnown h := by
  have addSkill : ∀ s, h.knows .skill s = true →
      IsKnown h { d with skillList := d.skillList ++ [s] } :=
    fun s hs => hd.appendSkills (List.forall_mem_singleton.mpr hs)
  unfold Draft.place
  split
  next a ha =>
    split
    · refine { hd with ability := ?_ }
      rintro b ⟨⟩
      exact House.knows_ability a
    -- an ability is there already, and a second one counts as a skill
    next hbeside =>
      apply addSkill
      refine (hability a ha).resolve_left fun hnone => hbeside ?_
      rw [hnone]
      rfl
  next ha =>
    split
    next k _ => exact addSkill _ (House.knows_skill k)
    next hskill =>
      split
      next n _ => exact { hd with }
      next hnumber =>
        have hknown : h.knows (bareField kind) t = true := by
          simpa [IsKnownWord, hskill, hnumber] using hword ha
        unfold bareField at hknown
        split
        next hk =>
          rw [if_pos hk] at hknown
          exact hd.appendTools (List.forall_mem_singleton.mpr hknown)
        next hk =>
          rw [if_neg hk] at hknown
          exact addSkill t hknown

/-! ### What is written -/

/-- A skill that is known where it stands without a key. -/
structure IsKnownBare (h : House) (kind : Kind) (s : String) : Prop where
  word : Token.IsWord s
  ability : ∀ a, Ability.find? s = some a → h.knows .skill a.name = true
  other : Ability.find? s = none → IsKnownWord h kind s

/-- Known words leave the names of the check known. -/
theorem Draft.IsKnown.foldl_words {d : Draft} (hd : d.IsKnown h) {ts : List String}
    (ht : ∀ t ∈ ts, IsKnownBare h kind t) : (ts.foldl (Draft.add kind) d).IsKnown h := by
  apply List.foldlRecOn (motive := Draft.IsKnown h) _ _ hd
  intro e he t hmem
  obtain ⟨hword, hability, hother⟩ := ht t hmem
  rw [Draft.add, Entry.ofToken?_word hword]
  exact he.place (fun a ha => .inr (hability a ha)) hother

/-- Whether the names of a check are known where its canonical text has them. A name with a slash falls
apart in a list. Without keys, an ability of the house counts as any other word, a skill with the name of
an ability as that ability, and in a tool check an unknown word as a tool. -/
def IsKnownAgain (h : House) (kind : Kind) (c : Check) : Prop :=
  if c.bare? = none then
    (∀ s ∈ c.texts, '"' ∉ s.toList) ∧
      (∀ s ∈ c.skillNames, '/' ∈ s.toList → ∀ p ∈ Entry.valueList s, h.knows .skill p = true) ∧
        ∀ t ∈ Selection.filled c.tools, '/' ∈ t.toList →
          ∀ p ∈ Entry.valueList t, h.knows .tool p = true
  else
    (∀ a ∈ c.abilityName, Token.IsWord a ∧ (Ability.find? a = none → IsKnownWord h kind a)) ∧
      ∀ s ∈ c.skillNames, Token.IsWord s ∧
        (∀ a, Ability.find? s = some a → h.knows .skill a.name = true) ∧
          (kind = .tool → Ability.find? s = none → IsKnownWord h kind s)

/-- The ability that is written is known if the names of the check are. -/
theorem known_abilityName (known : h.KnowsNames (.check c)) :
    ∀ a ∈ c.abilityName, h.knows .ability a = true := by
  intro a ha
  obtain ⟨b, hb, rfl⟩ := Option.map_eq_some_iff.mp ha
  rw [House.knows_ability_canonical]
  apply known (.ability, b)
  simp [Command.names, (Text.filled_eq_some.mp hb).1]

/-- The skills that are written are known if the names of the check are. -/
theorem known_skillNames (known : h.KnowsNames (.check c)) :
    ∀ s ∈ c.skillNames, h.knows .skill s = true := by
  intro s hs
  obtain ⟨t, ht, rfl⟩ := List.mem_map.mp hs
  rw [House.knows_skill_canonical]
  apply known (.skill, t)
  simp [Command.names, (Selection.mem_filled.mp ht).1]

theorem known_tools (known : h.KnowsNames (.check c)) :
    ∀ t ∈ Selection.filled c.tools, h.knows .tool t = true := by
  intro t ht
  apply known (.tool, t)
  simp [Command.names, (Selection.mem_filled.mp ht).1]

/-- The names in a body with keys are known. -/
theorem isKnown_entries (known : h.KnowsNames (.check c))
    (hskills : ∀ s ∈ c.skillNames, '/' ∈ s.toList →
      ∀ p ∈ Entry.valueList s, h.knows .skill p = true)
    (htools : ∀ t ∈ Selection.filled c.tools, '/' ∈ t.toList →
      ∀ p ∈ Entry.valueList t, h.knows .tool p = true) :
    (c.entries.foldl Draft.put {}).IsKnown h := by
  have hentries : ∀ e ∈ c.entries, IsKnownEntry h e := by
    apply forall_entries
    · exact known_abilityName known
    · exact House.knows_valueList (fun s hs => ⟨skillNames_ne_empty s hs, known_skillNames known s hs⟩)
        hskills
    · exact House.knows_valueList (fun t ht => ⟨(Selection.mem_filled.mp ht).2, known_tools known t ht⟩)
        htools
    all_goals
      intros
      trivial
  apply List.foldlRecOn (motive := Draft.IsKnown h) _ _ Draft.isKnown_empty
  intro d hd e he
  exact hd.put (hentries e he)

/-- A number without a key is no name. -/
theorem isKnownBare_write (n : Int64) : IsKnownBare h kind (Numeral.write n) := by
  have hn := Numeral.read?_write n
  refine ⟨(Numeral.isPlain_write n).1, fun a ha => ?_, fun _ => .inr (.inl ?_)⟩
  · rw [Ability.find?_of_read? hn] at ha
    cases ha
  · rw [hn]
    rfl

/-- Without keys, the skills of a check and the number behind them are known where they stand. -/
theorem isKnownBare_row (known : h.KnowsNames (.check c))
    (hskills : ∀ s ∈ c.skillNames, Token.IsWord s ∧
      (∀ a, Ability.find? s = some a → h.knows .skill a.name = true) ∧
        (kind = .tool → Ability.find? s = none → IsKnownWord h kind s)) (n : Option Int64) :
    ∀ t ∈ c.skillNames ++ n.toList.map Numeral.write, IsKnownBare h kind t := by
  intro t ht
  rcases List.mem_append.mp ht with ht | ht
  · obtain ⟨hword, hname, htool⟩ := hskills t ht
    refine ⟨hword, hname, fun ha => ?_⟩
    by_cases hk : kind = .tool
    · exact htool hk ha
    · refine .inr (.inr ?_)
      rw [bareField, if_neg hk]
      exact known_skillNames known t ht
  · obtain ⟨m, -, rfl⟩ := List.mem_map.mp ht
    exact isKnownBare_write m

/-- The ability of a check stands first, and any word that may be an ability is taken for it there. -/
theorem isKnown_first {o : Option String}
    (ho : ∀ a ∈ o, Token.IsWord a ∧ (Ability.find? a = none → IsKnownWord h kind a)) :
    (o.toList.foldl (Draft.add kind) {}).IsKnown h := by
  cases o with
  | none => exact Draft.isKnown_empty
  | some a =>
    obtain ⟨hword, hother⟩ := ho a rfl
    show (Draft.add kind {} a).IsKnown h
    rw [Draft.add, Entry.ofToken?_word hword]
    exact Draft.isKnown_empty.place (fun _ _ => .inl rfl) hother

/-- A house that knows the names of a check, also where its canonical text has them, knows the names
that are read of that text. -/
theorem knowsNames_read (known : h.KnowsNames (.check c)) (hc : c.IsKnownAgain h kind) :
    (∀ p ∈ c.parts, Token.IsWhole p) ∧
      h.KnowsNames (.check (read kind (Text.spaced c.parts))) := by
  unfold IsKnownAgain at hc
  cases hb : c.bare? with
  | none =>
    rw [if_pos hb] at hc
    obtain ⟨quotes, hskills, htools⟩ := hc
    obtain ⟨hwhole, hread⟩ := read_entries kind quotes
    rw [parts_of_keyed hb, hread]
    exact ⟨hwhole, (isKnown_entries known hskills htools).knowsNames⟩
  | some ps =>
    rw [if_neg (by simp [hb])] at hc
    obtain ⟨hability, hskills⟩ := hc
    obtain ⟨n, rfl, -, -⟩ := positional?_eq_some (bare?_eq_some hb).2
    have hbare := isKnownBare_row known hskills n
    have hwhole : ∀ p ∈ c.abilityName.toList ++ c.skillNames ++ n.toList.map Numeral.write,
        Token.IsWhole p := by
      intro p hp
      rw [List.append_assoc] at hp
      rcases List.mem_append.mp hp with hp | hp
      · exact (hability p (Option.mem_toList.mp hp)).1.isWhole
      · exact (hbare p hp).word.isWhole
    rw [parts_of_bare? hb, read, Token.split_spaced hwhole, List.append_assoc, List.foldl_append]
    rw [List.append_assoc] at hwhole
    exact ⟨hwhole, ((isKnown_first hability).foldl_words hbare).knowsNames⟩

end Check

end RollMarkup
