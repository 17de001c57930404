import Mathlib
import RollMarkup.Command.Check
import RollMarkup.Proofs.Field.Values
import RollMarkup.Proofs.Token.Entry
import RollMarkup.Proofs.Vocabulary.Naming

/-!
# Bodies of checks

A body with keys gives back every field of the check (`read_keyed`), and a body without keys gives
back the names and the difficulty it has (`read_bare`).
-/

namespace RollMarkup

namespace Check

variable {kind : Kind} {c : Check}

/-! ### What a canonical text says -/

/-- What the canonical text of a check says if it says everything: canonical names, no empty values,
and no flag that is off. -/
def settled (c : Check) : Check :=
  { ability := c.abilityName
    skills := Selection.ofList? c.skillNames
    tools := Selection.ofList? (Selection.filled c.tools)
    vehicle := Text.filled c.vehicle
    dc := c.dc
    format := c.format
    passive := if c.passive = some true then some true else none
    activity := Text.filled c.activity
    edition := c.edition }

/-- Whether a field is present beside the ability, the skills and a numeric difficulty. -/
def hasExtras (c : Check) : Bool :=
  c.needsKeys || (c.dc.bind Quantity.formula?).isSome

/-- Whether the names of a check are a lone ability or a lone skill. -/
def hasLoneName (c : Check) : Bool :=
  c.abilityName.toList.length + c.skillNames.length = 1

/-- What the canonical text of a check says: beside a lone name and nothing else, it says no
difficulty. -/
def recovered (c : Check) : Check :=
  if !c.hasExtras && c.hasLoneName then { c.settled with dc := none } else c.settled

/-- The body without keys, if the check has one. -/
def bare? (c : Check) : Option (List String) :=
  if c.needsKeys then none else positional? c.abilityName c.skillNames c.dc

theorem parts_of_bare? {ps : List String} (h : c.bare? = some ps) : c.parts = ps := by
  unfold bare? at h
  rw [parts, h]

theorem parts_of_keyed (h : c.bare? = none) : c.parts = c.entries.map Entry.toToken := by
  unfold bare? at h
  rw [parts, h]

/-! ### Bodies with keys -/

theorem add_of_ofToken? (kind : Kind) (d : Draft) (t : String) (e : Entry)
    (h : Entry.ofToken? t = some e) : d.add kind t = d.put e := by
  rw [Draft.add, h]

/-- A row of entries is read entry by entry. -/
theorem read_map_toToken (kind : Kind) {es : List Entry} (h : ∀ e ∈ es, e.IsSound) :
    read kind (Text.spaced (es.map Entry.toToken)) = (es.foldl Draft.put {}).finish := by
  rw [read, Token.split_spaced (Entry.isWhole_map_toToken h),
    Entry.foldl_toToken (add_of_ofToken? kind) h]

section Keyed

variable (d : Draft)

/-! Each entry sets its own field, if it is there. -/

theorem put_ability (o : Option String) :
    Entry.putOption Draft.put d (o.map (Entry.mk "ability")) =
      { d with ability := (o.map Ability.canonical).or d.ability } := by
  cases o <;> rfl

theorem put_skills {ss : List String} (h : ∀ s ∈ ss, s ≠ "" ∧ '/' ∉ s.toList) :
    Entry.putOption Draft.put d (Entry.ofList? "skill" ss) =
      { d with skillList := d.skillList ++ ss.map Skill.canonical } :=
  Entry.putOption_ofList? (fun ss => { d with skillList := d.skillList ++ ss.map Skill.canonical })
    (by simp) (fun _ _ => rfl) h

theorem put_tools {ts : List String} (h : ∀ t ∈ ts, t ≠ "" ∧ '/' ∉ t.toList) :
    Entry.putOption Draft.put d (Entry.ofList? "tool" ts) =
      { d with toolList := d.toolList ++ ts } :=
  Entry.putOption_ofList? (fun ts => { d with toolList := d.toolList ++ ts }) (by simp)
    (fun _ _ => rfl) h

theorem put_vehicle (o : Option String) :
    Entry.putOption Draft.put d (o.map (Entry.mk "vehicle")) =
      { d with vehicle := o.or d.vehicle } := by
  cases o <;> rfl

theorem put_dc {o : Option Quantity} (h : ∀ q ∈ o, q.IsStable) :
    Entry.putOption Draft.put d (o.map fun q => ⟨"dc", q.toText⟩) = { d with dc := o.or d.dc } := by
  cases o with
  | none => rfl
  | some q =>
    show { d with dc := some (Quantity.ofText q.toText) } = _
    rw [h q rfl]
    rfl

theorem put_format (o : Option DisplayFormat) :
    Entry.putOption Draft.put d (o.map fun f => ⟨"format", Keyword.word f⟩) =
      { d with format := o.or d.format } := by
  cases o with
  | none => rfl
  | some f => cases f <;> rfl

theorem put_passive (o : Option Bool) :
    Entry.putOption Draft.put d (if o = some true then some ⟨"passive", "true"⟩ else none) =
      { d with passive := (if o = some true then some true else none).or d.passive } := by
  by_cases h : o = some true
  · rw [if_pos h, if_pos h]
    rfl
  · rw [if_neg h, if_neg h]
    rfl

theorem put_activity (o : Option String) :
    Entry.putOption Draft.put d (o.map (Entry.mk "activity")) =
      { d with activity := o.or d.activity } := by
  cases o <;> rfl

theorem put_edition (o : Option Edition) :
    Entry.putOption Draft.put d (o.map fun e => ⟨"rules", Keyword.word e⟩) =
      { d with edition := o.or d.edition } := by
  cases o with
  | none => rfl
  | some e => cases e <;> rfl

end Keyed

theorem abilityName_canonical : c.abilityName.map Ability.canonical = c.abilityName := by
  rw [abilityName, Option.map_map, Ability.canonical_comp_canonical]

theorem skillNames_canonical : c.skillNames.map Skill.canonical = c.skillNames := by
  rw [skillNames, List.map_map, Skill.canonical_comp_canonical]

/-- No skill is written with an empty name. -/
theorem skillNames_ne_empty : ∀ s ∈ c.skillNames, s ≠ "" := by
  intro s hs
  obtain ⟨t, ht, rfl⟩ := List.mem_map.mp hs
  exact Skill.canonical_ne_empty (Selection.mem_filled.mp ht).2

/-- The entries of a check set every field to what it is settled as. -/
theorem foldl_entries (hs : ∀ s ∈ c.skillNames, '/' ∉ s.toList)
    (ht : ∀ t ∈ Selection.filled c.tools, '/' ∉ t.toList) (hdc : ∀ q ∈ c.dc, q.IsStable) :
    (c.entries.foldl Draft.put {}).finish = c.settled := by
  have hs' : ∀ s ∈ c.skillNames, s ≠ "" ∧ '/' ∉ s.toList :=
    fun s h => ⟨skillNames_ne_empty s h, hs s h⟩
  have ht' : ∀ t ∈ Selection.filled c.tools, t ≠ "" ∧ '/' ∉ t.toList :=
    fun t h => ⟨(Selection.mem_filled.mp h).2, ht t h⟩
  rw [entries, Entry.foldl_filterMap_id]
  simp only [List.foldl_cons, List.foldl_nil]
  rw [put_ability, put_skills _ hs', put_tools _ ht', put_vehicle, put_dc _ hdc, put_format,
    put_passive, put_activity, put_edition]
  simp only [abilityName_canonical, skillNames_canonical, Option.or_none, List.nil_append,
    Draft.finish, settled]

/-- What holds of each entry that a check may have holds of the entries it has. -/
theorem forall_entries {P : Entry → Prop} (ability : ∀ a ∈ c.abilityName, P ⟨"ability", a⟩)
    (skills : P ⟨"skill", "/".intercalate c.skillNames⟩)
    (tools : P ⟨"tool", "/".intercalate (Selection.filled c.tools)⟩)
    (vehicle : ∀ v ∈ Text.filled c.vehicle, P ⟨"vehicle", v⟩)
    (dc : ∀ q ∈ c.dc, P ⟨"dc", q.toText⟩)
    (format : ∀ f : DisplayFormat, P ⟨"format", Keyword.word f⟩)
    (passive : P ⟨"passive", "true"⟩)
    (activity : ∀ a ∈ Text.filled c.activity, P ⟨"activity", a⟩)
    (edition : ∀ e : Edition, P ⟨"rules", Keyword.word e⟩) : ∀ e ∈ c.entries, P e := by
  have hpassive : ∀ e, (if c.passive = some true then some (Entry.mk "passive" "true") else none) =
      some e → P e := by
    intro e he
    split at he
    · exact Option.some.inj he ▸ passive
    · cases he
  rw [entries, List.forall_mem_filterMap]
  simp only [List.forall_mem_cons, id]
  exact ⟨Option.forall_mem_map.mpr ability, Entry.forall_mem_ofList? skills,
    Entry.forall_mem_ofList? tools, Option.forall_mem_map.mpr vehicle, Option.forall_mem_map.mpr dc,
    Option.forall_mem_map.mpr fun f _ => format f, hpassive, Option.forall_mem_map.mpr activity,
    Option.forall_mem_map.mpr fun e _ => edition e, List.forall_mem_nil _⟩

/-! ### Characters of a canonical text -/

/-- The texts that a check is made of. -/
def texts (c : Check) : List String :=
  c.ability.toList ++ Selection.values c.skills ++ Selection.values c.tools ++ c.vehicle.toList ++
    (c.dc.bind Quantity.formula?).toList ++ c.activity.toList

theorem mem_texts {s : String} :
    s ∈ c.texts ↔ s ∈ c.ability ∨ s ∈ Selection.values c.skills ∨ s ∈ Selection.values c.tools ∨
      s ∈ c.vehicle ∨ s ∈ c.dc.bind Quantity.formula? ∨ s ∈ c.activity := by
  simp only [texts, List.mem_append, Option.mem_toList, Option.mem_def, or_assoc]

section Marks

variable {x : Char} (hx : x = '"' ∨ x = ']') (h : ∀ s ∈ c.texts, x ∉ s.toList)

include hx h

/-- The ability that is written holds no mark that the texts of the check lack. -/
theorem not_mem_abilityName : ∀ a ∈ c.abilityName, x ∉ a.toList := by
  intro a ha
  obtain ⟨b, hb, rfl⟩ := Option.map_eq_some_iff.mp ha
  exact Ability.not_mem_canonical hx (h b (mem_texts.mpr (.inl (Text.filled_eq_some.mp hb).1)))

/-- The skills that are written hold no mark that the texts of the check lack. -/
theorem not_mem_skillNames : ∀ s ∈ c.skillNames, x ∉ s.toList := by
  intro s hs
  obtain ⟨t, ht, rfl⟩ := List.mem_map.mp hs
  refine Skill.not_mem_canonical hx (h t (mem_texts.mpr (.inr (.inl ?_))))
  exact (Selection.mem_filled.mp ht).1

/-- No entry holds a quote or a closing bracket that the check does not hold. -/
theorem not_mem_entries : ∀ e ∈ c.entries, x ∉ e.value.toList := by
  have hmem := fun s hs => h s (mem_texts.mpr hs)
  apply forall_entries
  · exact not_mem_abilityName hx h
  · exact Entry.not_mem_list hx (not_mem_skillNames hx h)
  · exact Entry.not_mem_list hx fun t ht =>
      hmem t (.inr (.inr (.inl (Selection.mem_filled.mp ht).1)))
  · exact fun v hv => hmem v (.inr (.inr (.inr (.inl (Text.filled_eq_some.mp hv).1))))
  · intro q hq
    refine Quantity.not_mem_toText hx fun s hs => hmem s (.inr (.inr (.inr (.inr (.inl ?_)))))
    exact Option.bind_eq_some_iff.mpr ⟨q, hq, hs⟩
  · exact fun f => (Keyword.isPlain_format f).not_mem hx
  · rcases hx with rfl | rfl <;> decide
  · exact fun a ha => hmem a (.inr (.inr (.inr (.inr (.inr (Text.filled_eq_some.mp ha).1)))))
  · exact fun e => (Keyword.isPlain_edition e).not_mem hx

end Marks

theorem isPlain_key : ∀ e ∈ c.entries, Token.IsPlain e.key := by
  apply forall_entries
  all_goals
    intros
    dsimp only
    decide

/-- A body with keys is read entry by entry, where no value holds a quote. -/
theorem read_entries (kind : Kind) (quotes : ∀ s ∈ c.texts, '"' ∉ s.toList) :
    (∀ p ∈ c.entries.map Entry.toToken, Token.IsWhole p) ∧
      read kind (Text.spaced (c.entries.map Entry.toToken)) =
        (c.entries.foldl Draft.put {}).finish := by
  have hsound : ∀ e ∈ c.entries, e.IsSound :=
    fun e he => ⟨(isPlain_key e he).1, not_mem_entries (.inl rfl) quotes e he⟩
  exact ⟨Entry.isWhole_map_toToken hsound, read_map_toToken kind hsound⟩

/-- A body with keys says everything, where no value holds a quote and no name a slash. -/
theorem read_keyed (kind : Kind) (quotes : ∀ s ∈ c.texts, '"' ∉ s.toList)
    (hs : ∀ s ∈ c.skillNames, '/' ∉ s.toList)
    (ht : ∀ t ∈ Selection.filled c.tools, '/' ∉ t.toList) (hdc : ∀ q ∈ c.dc, q.IsStable) :
    (∀ p ∈ c.entries.map Entry.toToken, Token.IsWhole p) ∧
      read kind (Text.spaced (c.entries.map Entry.toToken)) = c.settled := by
  obtain ⟨hwhole, hread⟩ := read_entries kind quotes
  rw [hread, foldl_entries hs ht hdc]
  exact ⟨hwhole, rfl⟩

/-! ### Bodies without keys -/

/-- A skill that can stand without a key: it is read as a skill and nothing else. `beside` tells
whether an ability stands before it, so that a further ability is kept among the skills. -/
structure IsBareSkill (kind : Kind) (beside : Bool) (s : String) : Prop where
  word : Token.IsWord s
  number : Numeral.read? s = none
  canonical : Skill.canonical s = s
  ability : ∀ a, Ability.find? s = some a → beside = true ∧ a.name = s
  tool : kind = .tool → Ability.find? s = none → (Skill.find? s).isSome

/-- A bare skill is added to the skills. -/
theorem add_skill {beside : Bool} {s : String} (h : IsBareSkill kind beside s) {d : Draft}
    (hd : d.ability.isSome = beside) :
    d.add kind s = { d with skillList := d.skillList ++ [s] } := by
  rw [Draft.add, Entry.ofToken?_word h.word]
  show d.place kind s = _
  unfold Draft.place
  split
  -- a skill with an ability's name is one only beside an ability
  next a ha =>
    obtain ⟨hb, hname⟩ := h.ability a ha
    have hsome : ¬d.ability.isNone = true := by
      rw [← hd] at hb
      simp [Option.isSome_iff_ne_none.mp hb]
    rw [if_neg hsome, hname]
  next ha =>
    split
    next k hk =>
      have hname : k.name = s := by
        rw [← Skill.canonical_of_find? hk, h.canonical]
      rw [hname]
    next hk =>
      have hkind : kind ≠ .tool := by
        intro ht
        have hsome := h.tool ht ha
        rw [hk] at hsome
        cases hsome
      rw [h.number]
      exact if_neg hkind

/-- Bare skills are added to the skills in their order. -/
theorem foldl_skills {beside : Bool} {ss : List String} (h : ∀ s ∈ ss, IsBareSkill kind beside s)
    {d : Draft} (hd : d.ability.isSome = beside) :
    ss.foldl (Draft.add kind) d = { d with skillList := d.skillList ++ ss } := by
  induction ss generalizing d with
  | nil => simp
  | cons s ss ih =>
    rw [List.foldl_cons, add_skill (h s List.mem_cons_self) hd,
      ih (fun t ht => h t (List.mem_cons_of_mem _ ht)) (by exact hd)]
    simp

/-- Outside of tool checks, a token without a key that is no ability and no number is taken for the name
of a skill. -/
theorem add_word {w : String} (hkind : kind ≠ .tool) (hkey : '=' ∉ w.toList)
    (hability : Ability.find? w = none) (hnumber : Numeral.read? w = none) (d : Draft) :
    d.add kind w = { d with skillList := d.skillList ++ [Skill.canonical w] } := by
  rw [Draft.add, Entry.ofToken?_eq_none hkey]
  show d.place kind w = _
  rw [Draft.place, hability]
  dsimp only
  split
  next k hk => rw [Skill.canonical_of_find? hk]
  next hk => rw [hnumber, Skill.canonical_of_unknown hk]; exact if_neg hkind

/-- Words that are no abilities and no numbers are added to the skills in their order. -/
theorem foldl_words {ws : List String} (hkind : kind ≠ .tool)
    (h : ∀ w ∈ ws, '=' ∉ w.toList ∧ Ability.find? w = none ∧ Numeral.read? w = none) (d : Draft) :
    ws.foldl (Draft.add kind) d =
      { d with skillList := d.skillList ++ ws.map Skill.canonical } := by
  induction ws generalizing d with
  | nil => simp
  | cons w ws ih =>
    obtain ⟨hkey, hability, hnumber⟩ := h w List.mem_cons_self
    rw [List.foldl_cons, add_word hkind hkey hability hnumber,
      ih fun v hv => h v (List.mem_cons_of_mem _ hv)]
    simp

/-- The first word that names an ability sets the ability. -/
theorem add_ability {a : String} {b : Ability} (hw : Token.IsWord a) (h : Ability.find? a = some b)
    {d : Draft} (hd : d.ability = none) :
    d.add kind a = { d with ability := some b.name } := by
  rw [Draft.add, Entry.ofToken?_word hw]
  show d.place kind a = _
  rw [Draft.place, h, hd]
  rfl

/-- No number is the name of an ability or of a skill. -/
theorem add_of_read? {w : String} {n : Int64} (hw : Token.IsWord w) (hn : Numeral.read? w = some n)
    (d : Draft) : d.add kind w = { d with dc := some (.number n) } := by
  rw [Draft.add, Entry.ofToken?_word hw]
  show d.place kind w = _
  rw [Draft.place, Ability.find?_of_read? hn, Skill.find?_of_read? hn, hn]

/-- A number sets the difficulty. -/
theorem add_number (d : Draft) (n : Int64) :
    d.add kind (Numeral.write n) = { d with dc := some (.number n) } :=
  add_of_read? (Numeral.isPlain_write n).1 (Numeral.read?_write n) d

theorem foldl_number (n : Option Int64) {d : Draft} (hd : d.dc = none) :
    (n.toList.map Numeral.write).foldl (Draft.add kind) d =
      { d with dc := n.map Quantity.number } := by
  cases n with
  | none => rw [Option.map_none, ← hd]; rfl
  | some n => exact add_number d n

/-- A body without keys has the ability, the skills and, beside more than a lone name, the
difficulty. -/
theorem positional?_eq_some {a : Option String} {ss : List String} {dc : Option Quantity}
    {ps : List String} (h : positional? a ss dc = some ps) :
    ∃ n : Option Int64, ps = a.toList ++ ss ++ n.toList.map Numeral.write ∧
      dc.bind Quantity.formula? = none ∧
      n.map Quantity.number = if a.toList.length + ss.length = 1 then none else dc := by
  have noFormula : (∀ t, dc = some (.formula t) → False) → dc.bind Quantity.formula? = none := by
    intro hdc
    rcases dc with _ | n | t
    · rfl
    · rfl
    · exact absurd rfl (hdc t)
  -- one case for each shape of a body without keys, the refusals among them
  unfold positional? at h
  split at h
  · cases h
  · cases h
    exact ⟨none, by simp⟩
  next a hdc =>
    cases h
    exact ⟨none, by simp [noFormula hdc]⟩
  next s hdc =>
    cases h
    exact ⟨none, by simp [noFormula hdc]⟩
  · cases h
    exact ⟨none, by simp⟩
  · cases h
    exact ⟨none, by simp⟩
  next n =>
    cases h
    exact ⟨some n, by simp [Quantity.formula?]⟩
  next n =>
    cases h
    exact ⟨some n, by simp [Quantity.formula?]⟩
  · cases h

/-- A lone name always has a body without keys. -/
theorem positional?_isSome {a : Option String} {ss : List String} {dc : Option Quantity}
    (hdc : dc.bind Quantity.formula? = none) (lone : a.toList.length + ss.length = 1) :
    (positional? a ss dc).isSome := by
  have number : dc = none ∨ ∃ n, dc = some (.number n) := by
    rcases dc with _ | n | t
    · exact .inl rfl
    · exact .inr ⟨n, rfl⟩
    · cases hdc
  rcases a with _ | a <;> rcases ss with _ | ⟨s, _ | ⟨t, ss⟩⟩ <;> simp at lone <;>
    rcases number with rfl | ⟨n, rfl⟩ <;> rfl

/-- A check needs no keys if it has nothing but an ability, skills and a difficulty. -/
theorem needsKeys_eq_false : c.needsKeys = false ↔
    Selection.filled c.tools = [] ∧ Text.filled c.vehicle = none ∧ c.format = none ∧
      c.passive ≠ some true ∧ Text.filled c.activity = none ∧ c.edition = none := by
  simp [needsKeys, and_assoc]

theorem bare?_eq_some {ps : List String} (h : c.bare? = some ps) :
    c.needsKeys = false ∧ positional? c.abilityName c.skillNames c.dc = some ps := by
  unfold bare? at h
  split at h
  · cases h
  next hk => exact ⟨by simpa using hk, h⟩

/-- A body without keys says the names and the difficulty that the check is recovered with. -/
theorem recovered_of_bare {ps : List String} (h : c.bare? = some ps) :
    c.recovered =
      { ability := c.abilityName
        skills := Selection.ofList? c.skillNames
        dc := if c.abilityName.toList.length + c.skillNames.length = 1 then none else c.dc } := by
  obtain ⟨hk, hp⟩ := bare?_eq_some h
  obtain ⟨-, -, hdc, -⟩ := positional?_eq_some hp
  obtain ⟨ht, hv, hf, hpass, hact, hed⟩ := needsKeys_eq_false.mp hk
  have hextra : c.hasExtras = false := by
    rw [hasExtras, hk, hdc]
    rfl
  rw [recovered, hextra, hasLoneName, settled, ht, hv, hf, hact, hed, if_neg hpass]
  by_cases hl : c.abilityName.toList.length + c.skillNames.length = 1
  · simp [hl, Selection.ofList?]
  · simp [hl, Selection.ofList?]

/-- A check written by key comes back as it is settled. -/
theorem recovered_of_keyed (h : c.bare? = none) : c.recovered = c.settled := by
  rw [recovered, if_neg]
  intro hb
  rw [Bool.and_eq_true, Bool.not_eq_true', hasExtras, Bool.or_eq_false_iff, hasLoneName,
    decide_eq_true_eq] at hb
  obtain ⟨⟨hk, hdc⟩, hl⟩ := hb
  have hnone : c.dc.bind Quantity.formula? = none := by
    rw [← Option.not_isSome_iff_eq_none, hdc]
    exact Bool.false_ne_true
  have hsome := positional?_isSome hnone hl
  rw [bare?, hk, if_neg Bool.false_ne_true] at h
  rw [h] at hsome
  cases hsome

/-- A body without keys is read as it was written, where the ability is known and the skills can
stand without a key. -/
theorem read_bare (kind : Kind) {ps : List String} (h : c.bare? = some ps)
    (ha : ∀ a ∈ c.abilityName, (Ability.find? a).isSome)
    (hs : ∀ s ∈ c.skillNames, IsBareSkill kind c.abilityName.isSome s) :
    (∀ p ∈ ps, Token.IsWhole p) ∧ read kind (Text.spaced ps) = c.recovered := by
  obtain ⟨n, rfl, -, hn⟩ := positional?_eq_some (bare?_eq_some h).2
  rw [recovered_of_bare h, ← hn]
  have hability : ∀ a ∈ c.abilityName, ∃ b, Ability.find? a = some b ∧ a = b.name := by
    intro a hc
    obtain ⟨b, hb⟩ := Option.isSome_iff_exists.mp (ha a hc)
    obtain ⟨t, -, rfl⟩ := Option.map_eq_some_iff.mp hc
    rw [Ability.find?_canonical] at hb
    exact ⟨b, by rw [Ability.find?_canonical, hb], Ability.canonical_of_find? hb⟩
  have hwhole : ∀ p ∈ c.abilityName.toList ++ c.skillNames ++ n.toList.map Numeral.write,
      Token.IsWhole p := by
    intro p hp
    rcases List.mem_append.mp hp with hp | hp
    · rcases List.mem_append.mp hp with hp | hp
      · obtain ⟨b, -, rfl⟩ := hability p (Option.mem_toList.mp hp)
        exact (Ability.isWord_name b).isWhole
      · exact (hs p hp).word.isWhole
    · obtain ⟨m, -, rfl⟩ := List.mem_map.mp hp
      exact (Numeral.isPlain_write m).1.isWhole
  refine ⟨hwhole, ?_⟩
  -- the ability comes first, so that what is behind it is read beside it
  have hfirst : c.abilityName.toList.foldl (Draft.add kind) {} =
      ({ ability := c.abilityName } : Draft) := by
    cases hc : c.abilityName with
    | none => rfl
    | some a =>
      obtain ⟨b, hb, rfl⟩ := hability a hc
      exact add_ability (Ability.isWord_name b) hb rfl
  rw [read, Token.split_spaced hwhole, List.foldl_append, List.foldl_append, hfirst,
    foldl_skills hs rfl, foldl_number n rfl]
  rfl

end Check

end RollMarkup
