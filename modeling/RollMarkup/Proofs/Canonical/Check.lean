import Mathlib
import RollMarkup.Proofs.Command.Check
import RollMarkup.Proofs.Token.Characters

/-!
# Canonical texts of checks

What was read of a body without closing brackets is written without them (`closed_read`). The
canonical text of a check whose names can stand where it writes them (`IsLegible`) is read as a check
with the same canonical text (`isFixed`).
-/

namespace RollMarkup

namespace Check

variable {kind : Kind} {c : Check}

/-! ### What is read -/

/-- A check that is being read holds no closing bracket, and a difficulty that its text gives back. -/
structure Draft.IsClosed (d : Draft) : Prop where
  ability : ∀ s ∈ d.ability, ']' ∉ s.toList
  skillList : ∀ s ∈ d.skillList, ']' ∉ s.toList
  toolList : ∀ s ∈ d.toolList, ']' ∉ s.toList
  vehicle : ∀ s ∈ d.vehicle, ']' ∉ s.toList
  dc : ∀ q ∈ d.dc, q.IsStable ∧ ∀ s ∈ q.formula?, ']' ∉ s.toList
  activity : ∀ s ∈ d.activity, ']' ∉ s.toList

theorem Draft.IsClosed.appendSkills {d : Draft} (hd : d.IsClosed) {ss : List String}
    (hs : ∀ s ∈ ss, ']' ∉ s.toList) : IsClosed { d with skillList := d.skillList ++ ss } :=
  { hd with skillList := List.forall_mem_append.mpr ⟨hd.skillList, hs⟩ }

theorem Draft.IsClosed.appendTools {d : Draft} (hd : d.IsClosed) {ts : List String}
    (ht : ∀ t ∈ ts, ']' ∉ t.toList) : IsClosed { d with toolList := d.toolList ++ ts } :=
  { hd with toolList := List.forall_mem_append.mpr ⟨hd.toolList, ht⟩ }

/-- An entry without a closing bracket leaves the check closed. -/
theorem Draft.IsClosed.put {d : Draft} (hd : d.IsClosed) {e : Entry} (he : ']' ∉ e.value.toList) :
    (d.put e).IsClosed := by
  have hlist := Entry.not_mem_valueList he
  unfold Draft.put
  split
  next v =>
    refine { hd with ability := ?_ }
    rintro s ⟨⟩
    exact Ability.not_mem_canonical (.inr rfl) he
  next v =>
    refine hd.appendSkills fun s hs => ?_
    obtain ⟨t, ht, rfl⟩ := List.mem_map.mp hs
    exact Skill.not_mem_canonical (.inr rfl) (hlist t ht)
  next v => exact hd.appendTools hlist
  next v =>
    refine { hd with vehicle := ?_ }
    rintro s ⟨⟩
    exact he
  next v => exact { hd with dc := Quantity.lacks_ofText he }
  next v => exact { hd with }
  next v => exact { hd with }
  next v =>
    refine { hd with activity := ?_ }
    rintro s ⟨⟩
    exact he
  next v => exact { hd with }
  next => exact hd

/-- A word without a closing bracket leaves the check closed, whatever it is taken for. -/
theorem Draft.IsClosed.place {d : Draft} (hd : d.IsClosed) {t : String} (ht : ']' ∉ t.toList) :
    (d.place kind t).IsClosed := by
  have addSkill : ∀ s, ']' ∉ s.toList → IsClosed { d with skillList := d.skillList ++ [s] } :=
    fun s hs => hd.appendSkills (List.forall_mem_singleton.mpr hs)
  unfold Draft.place
  split
  next a _ =>
    have hname := (Ability.isPlain_name a).2.2
    split
    · refine { hd with ability := ?_ }
      rintro s ⟨⟩
      exact hname
    · exact addSkill _ hname
  · split
    next k _ => exact addSkill _ (Skill.isPlain_name k).2.2
    · split
      next n _ =>
        refine { hd with dc := ?_ }
        rintro q ⟨⟩
        exact ⟨Quantity.isStable_number n, fun s hs => by cases hs⟩
      · split
        · exact hd.appendTools (List.forall_mem_singleton.mpr ht)
        · exact addSkill t ht

/-- A token without a closing bracket leaves the check closed. -/
theorem Draft.IsClosed.add {d : Draft} (hd : d.IsClosed) {t : String} (ht : ']' ∉ t.toList) :
    (d.add kind t).IsClosed := by
  unfold Draft.add
  split
  next e he => exact hd.put (Entry.not_mem_ofToken? ht he)
  · exact hd.place ht

/-- A check that is read from a body without closing brackets holds none. -/
theorem closed_read (kind : Kind) {body : String} (h : ']' ∉ body.toList) :
    (∀ s ∈ (read kind body).texts, ']' ∉ s.toList) ∧ ∀ q ∈ (read kind body).dc, q.IsStable := by
  have hempty : Draft.IsClosed {} := by
    refine ⟨?_, ?_, ?_, ?_, ?_, ?_⟩ <;> rintro _ ⟨⟩
  have hfold : ((Token.split body).foldl (Draft.add kind) {}).IsClosed := by
    apply List.foldlRecOn (motive := Draft.IsClosed) _ _ hempty
    intro d hd t ht
    exact hd.add (Token.not_mem_split h t ht)
  refine ⟨fun s hs => ?_, fun q hq => (hfold.dc q hq).1⟩
  rcases mem_texts.mp hs with hs | hs | hs | hs | hs | hs
  · exact hfold.ability s hs
  · rw [read, Draft.finish, Selection.values_ofList?] at hs
    exact hfold.skillList s hs
  · rw [read, Draft.finish, Selection.values_ofList?] at hs
    exact hfold.toolList s hs
  · exact hfold.vehicle s hs
  · obtain ⟨q, hq, hs⟩ := Option.bind_eq_some_iff.mp hs
    exact (hfold.dc q hq).2 s hs
  · exact hfold.activity s hs

/-! ### What is written again -/

/-- Settling a check does not change its ability. -/
theorem abilityName_settled : c.settled.abilityName = c.abilityName := by
  have hfilled : Text.filled c.abilityName = c.abilityName := by
    cases h : c.abilityName with
    | none => rfl
    | some a =>
      obtain ⟨b, hb, rfl⟩ := Option.map_eq_some_iff.mp h
      exact Text.filled_eq_some.mpr
        ⟨rfl, Ability.canonical_ne_empty (Text.filled_eq_some.mp hb).2⟩
  show (Text.filled c.abilityName).map Ability.canonical = c.abilityName
  rw [hfilled, abilityName_canonical]

/-- Settling a check does not change its skills. -/
theorem skillNames_settled : c.settled.skillNames = c.skillNames := by
  show (Selection.filled (Selection.ofList? c.skillNames)).map Skill.canonical = c.skillNames
  rw [Selection.filled_ofList? skillNames_ne_empty, skillNames_canonical]

/-- Settling a check does not change its tools. -/
theorem tools_settled : Selection.filled c.settled.tools = Selection.filled c.tools := by
  show Selection.filled (Selection.ofList? (Selection.filled c.tools)) = Selection.filled c.tools
  exact Selection.filled_ofList? fun t ht => (Selection.mem_filled.mp ht).2

theorem passive_settled : c.settled.passive = some true ↔ c.passive = some true := by
  show (if c.passive = some true then some true else none) = some true ↔ _
  split <;> simp_all

/-- A check needs keys after it is settled if it did before. -/
theorem needsKeys_settled : c.settled.needsKeys = c.needsKeys := by
  have hpassive : (c.settled.passive == some true) = (c.passive == some true) := by
    rw [Bool.eq_iff_iff, beq_iff_eq, beq_iff_eq]
    exact passive_settled
  rw [needsKeys, tools_settled, hpassive]
  show (_ || (Text.filled (Text.filled c.vehicle)).isSome || c.format.isSome || _ ||
    (Text.filled (Text.filled c.activity)).isSome || c.edition.isSome) = _
  rw [Text.filled_filled, Text.filled_filled, needsKeys]

/-- Settling a check does not change its entries. -/
theorem entries_settled : c.settled.entries = c.entries := by
  have hpassive : (if c.settled.passive = some true then some (Entry.mk "passive" "true") else none) =
      if c.passive = some true then some (Entry.mk "passive" "true") else none := by
    simp only [passive_settled]
  have hvehicle : Text.filled c.settled.vehicle = Text.filled c.vehicle := Text.filled_filled _
  have hactivity : Text.filled c.settled.activity = Text.filled c.activity := Text.filled_filled _
  rw [entries, abilityName_settled, skillNames_settled, tools_settled, hpassive, hvehicle,
    hactivity]
  rfl

/-- Beside a lone name the difficulty is not written. -/
theorem positional?_lone {a : Option String} {ss : List String} {dc : Option Quantity}
    (hdc : dc.bind Quantity.formula? = none) (lone : a.toList.length + ss.length = 1) :
    positional? a ss dc = positional? a ss none := by
  rcases dc with _ | n | t
  · rfl
  · rcases a with _ | a <;> rcases ss with _ | ⟨s, _ | ⟨t, ss⟩⟩ <;> simp at lone <;> rfl
  · cases hdc

/-- What a check is recovered as is written as the check is. -/
theorem parts_recovered : c.recovered.parts = c.parts := by
  have hsettled : c.settled.parts = c.parts := by
    rw [parts, needsKeys_settled, abilityName_settled, skillNames_settled, entries_settled]
    rfl
  unfold recovered
  split
  next h =>
    rw [Bool.and_eq_true, Bool.not_eq_true', hasExtras, Bool.or_eq_false_iff, hasLoneName,
      decide_eq_true_eq] at h
    obtain ⟨⟨hkeys, hdc⟩, hlone⟩ := h
    have hnone : c.dc.bind Quantity.formula? = none := by
      rw [← Option.not_isSome_iff_eq_none, hdc]
      exact Bool.false_ne_true
    -- a lone name is written without the difficulty, and is as lone once that is dropped
    have hsome := positional?_isSome hnone hlone
    rw [positional?_lone hnone hlone] at hsome
    have hkeys' : ({ c.settled with dc := none } : Check).needsKeys = false :=
      needsKeys_settled.trans hkeys
    have hability : ({ c.settled with dc := none } : Check).abilityName = c.abilityName :=
      abilityName_settled
    have hskills : ({ c.settled with dc := none } : Check).skillNames = c.skillNames :=
      skillNames_settled
    obtain ⟨ps, hps⟩ := Option.isSome_iff_exists.mp hsome
    have hbare : c.bare? = some ps := by
      rw [bare?, hkeys, if_neg Bool.false_ne_true, positional?_lone hnone hlone]
      exact hps
    have hbare' : ({ c.settled with dc := none } : Check).bare? = some ps := by
      rw [bare?, hkeys', if_neg Bool.false_ne_true, hability, hskills]
      exact hps
    rw [parts_of_bare? hbare', parts_of_bare? hbare]
  · exact hsettled

/-! ### Legible checks -/

/-- Whether the names of a check can stand where its canonical text has them: in lists without a
slash behind keys, and without keys where each name is read as what it is. An ability of the house
counts as a skill there, for want of a key. -/
def IsLegible (kind : Kind) (c : Check) : Prop :=
  if c.bare? = none then ∀ s ∈ c.skillNames ++ Selection.filled c.tools, '/' ∉ s.toList
  else
    (∀ a ∈ c.abilityName, Ability.find? a = none → IsBareSkill kind false a) ∧
      ∀ s ∈ c.skillNames, IsBareSkill kind (c.abilityName.bind Ability.find?).isSome s

/-- The canonical text of a check is fixed if it is read as a check with the same parts. -/
theorem isFixed_of_read (hk : IsKind kind) {d : Check} (closed : ∀ s ∈ c.texts, ']' ∉ s.toList)
    (whole : ∀ p ∈ c.parts, Token.IsWhole p) (hread : read kind (Text.spaced c.parts) = d)
    (hd : d.parts = c.parts) : Command.IsFixed kind (.check c) := by
  refine ⟨.check d, first?_of_read hk closed whole hread, ?_⟩
  rw [write_eq hk, write_eq hk, hd]

/-- The check with its ability among the skills. -/
def joined (c : Check) : Check :=
  { c with ability := none, skills := some (.many (c.abilityName.toList ++ c.skillNames)) }

/-- Without keys an ability may as well be the first of the skills. -/
theorem positional?_joined {a : Option String} {ss ps : List String} {dc : Option Quantity}
    (h : positional? a ss dc = some ps) : positional? none (a.toList ++ ss) dc = some ps := by
  rcases a with _ | a
  · exact h
  · rcases dc with _ | n | t
    · rcases ss with _ | ⟨s, _ | ⟨t, ss⟩⟩
      · exact h
      · exact h
      · cases h
    · rcases ss with _ | ⟨s, _ | ⟨t, ss⟩⟩
      · exact h
      · cases h
      · exact h
    · cases h

/-- A house ability that can stand among the skills is written there as it is as an ability. -/
theorem bare?_joined {a : String} (ha : c.abilityName = some a) (hbare : IsBareSkill kind false a)
    {ps : List String} (h : c.bare? = some ps) :
    c.joined.abilityName = none ∧ c.joined.skillNames = a :: c.skillNames ∧
      c.joined.bare? = some ps := by
  obtain ⟨hkeys, hp⟩ := bare?_eq_some h
  have hfilled : Selection.filled (some (.many (a :: c.skillNames))) = a :: c.skillNames := by
    show (a :: c.skillNames).filter (· ≠ "") = _
    rw [List.filter_eq_self]
    intro s hs
    rcases List.mem_cons.mp hs with rfl | hs
    · exact decide_eq_true hbare.word.1
    · exact decide_eq_true (skillNames_ne_empty s hs)
  have hskills : c.joined.skillNames = a :: c.skillNames := by
    rw [skillNames, joined, ha]
    show (Selection.filled (some (.many (a :: c.skillNames)))).map Skill.canonical = _
    rw [hfilled, List.map_cons, hbare.canonical, skillNames_canonical]
  have hjoined := positional?_joined hp
  rw [ha] at hjoined
  refine ⟨rfl, hskills, ?_⟩
  have hkeys' : c.joined.needsKeys = false := hkeys
  rw [bare?, hkeys', if_neg Bool.false_ne_true, hskills]
  exact hjoined

/-- Without keys, an ability of the house is read as the first of the skills, and written again as it
was. -/
theorem isFixed_joined (hk : IsKind kind) (closed : ∀ s ∈ c.texts, ']' ∉ s.toList) {a : String}
    (ha : c.abilityName = some a) (hbare : IsBareSkill kind false a)
    (hskills : ∀ s ∈ c.skillNames, IsBareSkill kind false s) {ps : List String}
    (hb : c.bare? = some ps) : Command.IsFixed kind (.check c) := by
  obtain ⟨hname, hnames, hb'⟩ := bare?_joined ha hbare hb
  have hjoined : ∀ s ∈ c.joined.skillNames, IsBareSkill kind c.joined.abilityName.isSome s := by
    rw [hnames, hname]
    exact List.forall_mem_cons.mpr ⟨hbare, hskills⟩
  obtain ⟨hwhole, hread⟩ := read_bare kind hb' (by simp [hname]) hjoined
  rw [← parts_of_bare? hb] at hwhole hread
  refine isFixed_of_read hk closed hwhole hread ?_
  rw [parts_recovered, parts_of_bare? hb', parts_of_bare? hb]

/-- The canonical text of a legible check is fixed. -/
theorem isFixed (hk : IsKind kind) (closed : ∀ s ∈ c.texts, ']' ∉ s.toList)
    (stable : ∀ q ∈ c.dc, q.IsStable) (quotes : ∀ s ∈ c.texts, '"' ∉ s.toList)
    (h : c.IsLegible kind) : Command.IsFixed kind (.check c) := by
  unfold IsLegible at h
  cases hb : c.bare? with
  | none =>
    rw [if_pos hb] at h
    obtain ⟨hwhole, hread⟩ := read_keyed kind quotes
      (fun s hs => h s (List.mem_append_left _ hs)) (fun t ht => h t (List.mem_append_right _ ht))
      stable
    rw [← parts_of_keyed hb] at hwhole hread
    rw [← recovered_of_keyed hb] at hread
    exact isFixed_of_read hk closed hwhole hread parts_recovered
  | some ps =>
    rw [if_neg (by simp [hb])] at h
    obtain ⟨hability, hskills⟩ := h
    by_cases hknown : ∀ a ∈ c.abilityName, (Ability.find? a).isSome
    · have hbeside : (c.abilityName.bind Ability.find?).isSome = c.abilityName.isSome := by
        cases ha : c.abilityName with
        | none => rfl
        | some a => exact hknown a ha
      rw [hbeside] at hskills
      obtain ⟨hwhole, hread⟩ := read_bare kind hb hknown hskills
      rw [← parts_of_bare? hb] at hwhole hread
      exact isFixed_of_read hk closed hwhole hread parts_recovered
    · -- the ability is one of the house, which is read as a skill
      simp only [not_forall] at hknown
      obtain ⟨a, ha, hunknown⟩ := hknown
      have hnone : Ability.find? a = none := Option.not_isSome_iff_eq_none.mp hunknown
      rw [Option.mem_def.mp ha, Option.bind_some, hnone] at hskills
      exact isFixed_joined hk closed ha (hability a ha hnone) hskills hb

end Check

end RollMarkup
