import Mathlib
import RollMarkup.Proofs.Command.Check
import RollMarkup.Proofs.Command.Save

/-!
# Words with keys and without

Without keys the words of a check or a saving throw are told apart by what they name, wherever they
stand: a number is the difficulty, in a check an ability is told from the skills, and in a saving throw
every other word is an ability. With the keys that this gives them the words are read as the same
command (`first?_row_keyed`).
-/

namespace RollMarkup

variable {kind : Kind} {ws : List String} {w : String}

namespace Word

/-- The words that are numbers. -/
def numbers (ws : List String) : List String :=
  ws.filter fun w => (Numeral.read? w).isSome

/-- The words that are no numbers. -/
def names (ws : List String) : List String :=
  ws.filter fun w => (Numeral.read? w).isNone

/-- The words that name abilities. -/
def abilities (ws : List String) : List String :=
  ws.filter fun w => (Ability.find? w).isSome

/-- The words that are no numbers and name no abilities. -/
def others (ws : List String) : List String :=
  ws.filter fun w => (Numeral.read? w).isNone && (Ability.find? w).isNone

/-- The difficulty that a row of words gives: its last number. -/
def difficulty? (ws : List String) : Option String :=
  (numbers ws).getLast?

theorem mem_of_mem_difficulty? (h : w ∈ difficulty? ws) : w ∈ ws :=
  List.mem_of_mem_filter (List.mem_of_getLast? h)

theorem mem_of_head?_abilities (h : w ∈ (abilities ws).head?) : w ∈ ws :=
  List.mem_of_mem_filter (List.mem_of_head? h)

/-! What one more word adds. -/

theorem difficulty?_concat_number {n : Int64} (h : Numeral.read? w = some n) :
    difficulty? (ws ++ [w]) = some w := by
  simp [difficulty?, numbers, h]

theorem difficulty?_concat_name (h : Numeral.read? w = none) :
    difficulty? (ws ++ [w]) = difficulty? ws := by
  simp [difficulty?, numbers, h]

theorem abilities_concat (ws : List String) (w : String) :
    abilities (ws ++ [w]) = abilities ws ++ if (Ability.find? w).isSome then [w] else [] := by
  rw [abilities, List.filter_append, ← abilities, List.filter_cons, List.filter_nil]

theorem mem_others {v : String} :
    v ∈ others ws ↔ v ∈ ws ∧ Numeral.read? v = none ∧ Ability.find? v = none := by
  simp [others]

/-- The entry that gives the difficulty its key. -/
def keyedDifficulty (ws : List String) : Option Entry :=
  (difficulty? ws).map (Entry.mk "dc")

theorem isPlain_keyedDifficulty (h : ∀ w ∈ ws, Token.IsPlain w) :
    ∀ e ∈ keyedDifficulty ws, e.IsPlain := by
  rw [keyedDifficulty, Option.forall_mem_map]
  exact fun w hw => ⟨by dsimp only; decide, (h w (mem_of_mem_difficulty? hw)).isQuotable⟩

end Word

open Word

namespace Check

/-- What a row of words says: an ability, skills and a difficulty. -/
def ofWords (ws : List String) : Check :=
  { ability := (abilities ws).head?.map Ability.canonical
    skills := Selection.ofList? ((others ws).map Skill.canonical)
    dc := (difficulty? ws).map Quantity.ofText }

/-- The entries that give the words of a row their keys. -/
def keyed (ws : List String) : List Entry :=
  [ (abilities ws).head?.map (Entry.mk "ability"),
    Entry.ofList? "skill" (others ws),
    keyedDifficulty ws ].filterMap id

/-- Plain words of which one at most is an ability. In a tool check the words that are neither an
ability nor a number are known as skills. -/
structure IsRow (kind : Kind) (ws : List String) : Prop where
  plain : ∀ w ∈ ws, Token.IsPlain w
  lone : (abilities ws).length ≤ 1
  known : kind = .tool → ∀ w ∈ others ws, (Skill.find? w).isSome

theorem IsRow.of_concat (h : IsRow kind (ws ++ [w])) : IsRow kind ws where
  plain := fun v hv => h.plain v (List.mem_append_left _ hv)
  lone := by
    have hlone := h.lone
    rw [abilities_concat, List.length_append] at hlone
    omega
  known := by
    intro htool v hv
    rw [mem_others] at hv
    exact h.known htool v (mem_others.mpr ⟨List.mem_append_left _ hv.1, hv.2⟩)

/-- A word that is neither an ability nor a number is taken for the name of a skill, unless it may be one
of a tool. -/
theorem add_skillName (hw : Token.IsWord w) (hability : Ability.find? w = none)
    (hnumber : Numeral.read? w = none) (known : kind = .tool → (Skill.find? w).isSome) (d : Draft) :
    d.add kind w = { d with skillList := d.skillList ++ [Skill.canonical w] } := by
  by_cases htool : kind = .tool
  · obtain ⟨s, hs⟩ := Option.isSome_iff_exists.mp (known htool)
    rw [Draft.add, Entry.ofToken?_word hw, Skill.canonical_of_find? hs]
    show d.place kind w = _
    rw [Draft.place, hability, hs]
  · exact add_word htool (fun hc => (hw.2 _ hc).2.1 rfl) hability hnumber d

/-- The words of a row go to their places, wherever they stand. -/
theorem foldl_row (h : IsRow kind ws) :
    ws.foldl (Draft.add kind) {} =
      { ability := (abilities ws).head?.map Ability.canonical
        dc := (difficulty? ws).map Quantity.ofText
        skillList := (others ws).map Skill.canonical } := by
  -- words are taken from the left, so that the last one meets the draft of those before it
  induction ws using List.reverseRecOn with
  | nil => rfl
  | append_singleton ws w ih =>
    have hw := (h.plain w (by simp)).1
    rw [List.foldl_append, ih h.of_concat, List.foldl_cons, List.foldl_nil, abilities_concat]
    cases hn : Numeral.read? w with
    | some n =>
      rw [add_of_read? hw hn, difficulty?_concat_number hn, Ability.find?_of_read? hn,
        Option.map_some, Quantity.ofText_of_read? hn]
      simp [others, hn]
    | none =>
      rw [difficulty?_concat_name hn]
      cases ha : Ability.find? w with
      | some a =>
        -- no other word of the row is an ability
        have hfirst : abilities ws = [] := by
          have hlone := h.lone
          rw [abilities_concat, ha, List.length_append] at hlone
          exact List.eq_nil_of_length_eq_zero (by simpa using hlone)
        rw [hfirst, add_ability hw ha rfl]
        simp [others, ha, Ability.canonical_of_find? ha]
      | none =>
        have hknown : kind = .tool → (Skill.find? w).isSome :=
          fun htool => h.known htool w (mem_others.mpr ⟨by simp, hn, ha⟩)
        rw [add_skillName hw ha hn hknown]
        simp [others, hn, ha]

theorem isPlain_keyed (h : ∀ w ∈ ws, Token.IsPlain w) : ∀ e ∈ keyed ws, e.IsPlain := by
  have hability : ∀ w ∈ (abilities ws).head?, (Entry.mk "ability" w).IsPlain := fun w hw =>
    ⟨by dsimp only; decide, (h w (mem_of_head?_abilities hw)).isQuotable⟩
  have hskills : ∀ e ∈ Entry.ofList? "skill" (others ws), e.IsPlain :=
    Entry.isPlain_ofList? (by decide) fun w hw => (h w (mem_others.mp hw).1).isQuotable
  rw [keyed, List.forall_mem_filterMap]
  simp only [List.forall_mem_cons, id]
  exact ⟨Option.forall_mem_map.mpr hability, hskills, isPlain_keyedDifficulty h,
    List.forall_mem_nil _⟩

theorem put_difficulty (d : Draft) :
    Entry.putOption Draft.put d (keyedDifficulty ws) =
      { d with dc := ((difficulty? ws).map Quantity.ofText).or d.dc } := by
  rw [keyedDifficulty]
  cases difficulty? ws <;> rfl

/-- With keys, a row of words says what it says without them. -/
theorem foldl_keyed (h : ∀ w ∈ ws, Token.IsPlain w) :
    ((keyed ws).foldl Draft.put {}).finish = ofWords ws := by
  have hothers : ∀ w ∈ others ws, w ≠ "" ∧ '/' ∉ w.toList := fun w hw =>
    ⟨(h w (mem_others.mp hw).1).1.1, (h w (mem_others.mp hw).1).2.1⟩
  rw [keyed, Entry.foldl_filterMap_id]
  simp only [List.foldl_cons, List.foldl_nil]
  rw [put_ability, put_skills _ hothers, put_difficulty]
  simp only [Option.or_none, List.nil_append, Draft.finish, ofWords]
  rfl

/-- A row of words is found as the check that the same words with keys are found as. -/
theorem first?_words (hk : IsKind kind) (h : IsRow kind ws) :
    Occurrence.first? (bracketed (Keyword.word kind) ws) =
        some (Occurrence.whole kind (.check (ofWords ws)) (bracketed (Keyword.word kind) ws)) ∧
      Occurrence.first? (bracketed (Keyword.word kind) ((keyed ws).map Entry.toToken)) =
        some (Occurrence.whole kind (.check (ofWords ws))
          (bracketed (Keyword.word kind) ((keyed ws).map Entry.toToken))) := by
  have hcommand : ∀ body, Command.read kind none body = .check (read kind body) := by
    intro body
    rcases hk with rfl | rfl | rfl <;> rfl
  have hwhole : ∀ w ∈ ws, Token.IsWhole w := fun w hw => (h.plain w hw).1.isWhole
  have hplain := isPlain_keyed h.plain
  constructor
  · rw [Occurrence.first?_row (heading_mem hk) (fun w hw => (h.plain w hw).2.2) hwhole, hcommand, read,
      Token.split_spaced hwhole, foldl_row h]
    rfl
  · rw [Occurrence.first?_entries (heading_mem hk) hplain, hcommand,
      read_map_toToken kind fun e he => (hplain e he).isSound, foldl_keyed h.plain]

end Check

namespace Save

/-- What a row of words says: abilities and a difficulty. -/
def ofWords (ws : List String) : Save :=
  { abilities := Selection.ofList? ((names ws).map Ability.canonical)
    dc := (difficulty? ws).map Quantity.ofText }

/-- The entries that give the words of a row their keys. -/
def keyed (ws : List String) : List Entry :=
  [ Entry.ofList? "ability" (names ws),
    keyedDifficulty ws ].filterMap id

/-- The words of a row go to their places, wherever they stand. -/
theorem foldl_row (h : ∀ w ∈ ws, Token.IsPlain w) :
    ws.foldl Draft.add {} =
      { abilityList := (names ws).map Ability.canonical
        dc := (difficulty? ws).map Quantity.ofText } := by
  induction ws using List.reverseRecOn with
  | nil => rfl
  | append_singleton ws w ih =>
    have hw := (h w (by simp)).1
    rw [List.foldl_append, ih fun v hv => h v (List.mem_append_left _ hv), List.foldl_cons,
      List.foldl_nil]
    cases hn : Numeral.read? w with
    | some n =>
      rw [add_of_read? hw hn, difficulty?_concat_number hn, Option.map_some,
        Quantity.ofText_of_read? hn]
      simp [names, hn]
    | none =>
      rw [add_word (fun hc => (hw.2 _ hc).2.1 rfl) hn, difficulty?_concat_name hn]
      simp [names, hn]

theorem isPlain_keyed (h : ∀ w ∈ ws, Token.IsPlain w) : ∀ e ∈ keyed ws, e.IsPlain := by
  have hability : ∀ e ∈ Entry.ofList? "ability" (names ws), e.IsPlain :=
    Entry.isPlain_ofList? (by decide) fun w hw => (h w (List.mem_of_mem_filter hw)).isQuotable
  rw [keyed, List.forall_mem_filterMap]
  simp only [List.forall_mem_cons, id]
  exact ⟨hability, isPlain_keyedDifficulty h, List.forall_mem_nil _⟩

theorem put_difficulty (d : Draft) :
    Entry.putOption Draft.put d (keyedDifficulty ws) =
      { d with dc := ((difficulty? ws).map Quantity.ofText).or d.dc } := by
  rw [keyedDifficulty]
  cases difficulty? ws <;> rfl

/-- With keys, a row of words says what it says without them. -/
theorem foldl_keyed (h : ∀ w ∈ ws, Token.IsPlain w) :
    ((keyed ws).foldl Draft.put {}).finish = ofWords ws := by
  have hnames : ∀ w ∈ names ws, w ≠ "" ∧ '/' ∉ w.toList := fun w hw =>
    ⟨(h w (List.mem_of_mem_filter hw)).1.1, (h w (List.mem_of_mem_filter hw)).2.1⟩
  rw [keyed, Entry.foldl_filterMap_id]
  simp only [List.foldl_cons, List.foldl_nil]
  rw [put_abilities _ hnames, put_difficulty]
  simp only [Option.or_none, List.nil_append, Draft.finish, ofWords]

/-- A row of words is found as the saving throw that the same words with keys are found as. -/
theorem first?_words (hk : IsKind kind) (h : ∀ w ∈ ws, Token.IsPlain w) :
    Occurrence.first? (bracketed (Keyword.word kind) ws) =
        some (Occurrence.whole kind (.save (ofWords ws)) (bracketed (Keyword.word kind) ws)) ∧
      Occurrence.first? (bracketed (Keyword.word kind) ((keyed ws).map Entry.toToken)) =
        some (Occurrence.whole kind (.save (ofWords ws))
          (bracketed (Keyword.word kind) ((keyed ws).map Entry.toToken))) := by
  have hcommand : ∀ body, Command.read kind none body = .save (read body) := by
    intro body
    rcases hk with rfl | rfl <;> rfl
  have hwhole : ∀ w ∈ ws, Token.IsWhole w := fun w hw => (h w hw).1.isWhole
  have hplain := isPlain_keyed h
  constructor
  · rw [Occurrence.first?_row (heading_mem hk) (fun w hw => (h w hw).2.2) hwhole, hcommand, read,
      Token.split_spaced hwhole, foldl_row h]
    rfl
  · rw [Occurrence.first?_entries (heading_mem hk) hplain, hcommand,
      read_map_toToken fun e he => (hplain e he).isSound, foldl_keyed h]

end Save

/-! ### Both kinds of commands -/

namespace Command

/-- A row of words that can be told apart under a kind: plain words for a saving throw, and for a check
with one ability at most and, under `tool`, with known skills only. -/
def IsRow (k : Kind) (ws : List String) : Prop :=
  Save.IsKind k ∧ (∀ w ∈ ws, Token.IsPlain w) ∨ Check.IsKind k ∧ Check.IsRow k ws

/-- What a row of words says under a kind. -/
def ofWords (k : Kind) (ws : List String) : Command :=
  match k with
  | .save | .concentration => .save (Save.ofWords ws)
  | _ => .check (Check.ofWords ws)

/-- The entries that give the words of a row their keys under a kind. -/
def keyed (k : Kind) (ws : List String) : List Entry :=
  match k with
  | .save | .concentration => Save.keyed ws
  | _ => Check.keyed ws

end Command

namespace Occurrence

/-- A row of words is found as the command that the same words with keys are found as, in whatever order
they stand. -/
theorem first?_row_keyed {k : Kind} (h : Command.IsRow k ws) :
    first? (bracketed (Keyword.word k) ws) =
        some (whole k (Command.ofWords k ws) (bracketed (Keyword.word k) ws)) ∧
      first? (bracketed (Keyword.word k) ((Command.keyed k ws).map Entry.toToken)) =
        some (whole k (Command.ofWords k ws)
          (bracketed (Keyword.word k) ((Command.keyed k ws).map Entry.toToken))) := by
  rcases h with ⟨hk, hplain⟩ | ⟨hk, hrow⟩
  · have hfound := Save.first?_words hk hplain
    rcases hk with rfl | rfl <;> exact hfound
  · have hfound := Check.first?_words hk hrow
    rcases hk with rfl | rfl | rfl <;> exact hfound

/-- Known and unknown skills around an ability and a difficulty. A number that is too large for one is a
name. -/
theorem first?_row_keyed_perception :
    let ws := ["PRC", "+015", "DEX", "lore", "99999999999999999999"]
    Command.IsRow .skill ws ∧
      bracketed (Keyword.word Kind.skill) ((Command.keyed .skill ws).map Entry.toToken) =
        "[[/skill ability=DEX skill=PRC/lore/99999999999999999999 dc=+015]]" ∧
      let c : Command := .check
        { ability := some "dexterity"
          skills := some (.many ["perception", "lore", "99999999999999999999"])
          dc := some (.number 15) }
      first? (bracketed (Keyword.word Kind.skill) ws) =
          some (whole .skill c (bracketed (Keyword.word Kind.skill) ws)) ∧
        first? (bracketed (Keyword.word Kind.skill)
            ((Command.keyed .skill ws).map Entry.toToken)) =
          some (whole .skill c (bracketed (Keyword.word Kind.skill)
            ((Command.keyed .skill ws).map Entry.toToken))) := by
  intro ws
  have h : Command.IsRow .skill ws :=
    .inr ⟨.inr (.inl rfl), ⟨by decide, by decide, fun htool => by cases htool⟩⟩
  have hmeans : Command.ofWords .skill ws = .check
      { ability := some "dexterity"
        skills := some (.many ["perception", "lore", "99999999999999999999"])
        dc := some (.number 15) } := by decide +kernel
  have hfound := first?_row_keyed h
  rw [hmeans] at hfound
  exact ⟨h, by decide +kernel, hfound⟩

end Occurrence

end RollMarkup
