import Mathlib
import RollMarkup.Proofs.Command.Damage.Body
import RollMarkup.Proofs.Spelling.Settings

/-!
# Rolls with keys and without

A formula, what it rolls and the settings behind them are read as the same roll with keys and without,
for damage and for healing (`first?_roll_keyed`). Damage is the exception where a setting holds the
separator of several rolls, which is looked for in the whole body (`not_first?_roll_keyed`).
-/

namespace RollMarkup

/-! ### Damage -/

/-- The value of the setting holds the sign of several damage rolls. -/
def Setting.HoldsSeparator (s : Setting) : Prop :=
  [' ', '&', ' '] <:+: s.entry.value.toList

instance (s : Setting) : Decidable s.HoldsSeparator :=
  inferInstanceAs (Decidable ([' ', '&', ' '] <:+: s.entry.value.toList))

namespace Damage

variable {formula types : List String} {ss us : List Setting}

/-- The words of a formula and of types. The formula ends where the types begin, and no word means
anything else. -/
structure IsRow (formula types : List String) : Prop where
  first : ∃ w ws, formula = w :: ws ∧ isType w = false ∧ ∀ v ∈ ws, continuesFormula v = true
  stop : ∀ t ∈ types.head?, continuesFormula t = false
  terms : ∀ t ∈ formula ++ types, IsTerm t ∧ ']' ∉ t.toList
  slash : ∀ t ∈ types, '/' ∉ t.toList

/-- One roll with its settings. -/
def ofRow (formula types : List String) (x : Suffix) : Damage :=
  { formula := some (Text.spaced formula)
    types := Selection.ofList? types
    average := x.average
    activity := x.activity
    format := x.format }

/-- The same roll as the only one in a list of rolls. -/
def ofLoneRow (formula types : List String) (x : Suffix) : Damage :=
  { average := x.average
    activity := x.activity
    format := x.format
    rolls := [⟨Text.spaced formula, Selection.ofList? types⟩] }

/-- What a row without keys is read as, with the settings behind it. -/
def ofBareRow (formula types : List String) (ss : List Setting) : Damage :=
  if ∃ s ∈ ss, s.HoldsSeparator then ofLoneRow formula types (Suffix.ofSettings ss)
  else ofRow formula types (Suffix.ofSettings ss)

/-- The entries of a formula and of types. -/
def keyedRow (formula types : List String) : List Entry :=
  ⟨"formula", Text.spaced formula⟩ :: (Entry.ofList? "type" types).toList

theorem IsRow.cutFormula (h : IsRow formula types) :
    cutFormula (formula ++ types) = (formula, types) := by
  obtain ⟨w, ws, rfl, hw, hws⟩ := h.first
  exact cutFormula_append hw hws h.stop

theorem IsRow.spaced_ne_empty (h : IsRow formula types) : Text.spaced formula ≠ "" := by
  obtain ⟨w, ws, rfl, -, -⟩ := h.first
  exact Token.spaced_ne_empty (h.terms w (by simp)).1.1.1 ws

theorem IsRow.isWhole (h : IsRow formula types) (hss : Setting.AreSound ss) :
    ∀ t ∈ formula ++ types ++ ss.map Setting.token, Token.IsWhole t ∧ ']' ∉ t.toList :=
  hss.isWhole_append fun t ht => ⟨(h.terms t ht).1.1.isWhole, (h.terms t ht).2⟩

/-- The token of a setting holds the separator if its value does. -/
theorem hasSeveral_token {s : Setting} :
    hasSeveral s.token.toList = true ↔ s.HoldsSeparator := by
  rw [Setting.HoldsSeparator, ← hasSeveral_iff]
  cases s with
  | shown => decide
  | average v | format v | activity v =>
    rw [← hasSeveral_toToken (by dsimp only [Setting.entry]; decide)]
    rfl

theorem ampersand_not_mem_settings : "&" ∉ ss.map Setting.token := by
  intro hamp
  obtain ⟨s, -, hs⟩ := List.mem_map.mp hamp
  rcases s.token_cases with h | h
  · rw [h] at hs
    exact absurd hs (by decide)
  · exact s.entry.toToken_ne (by decide) (h.symm.trans hs)

/-- Of a row with settings behind it, only the settings may hold the separator. -/
theorem hasSeveral_row (h : IsRow formula types) (hss : Setting.AreSound ss) :
    hasSeveral (Text.spaced (formula ++ types ++ ss.map Setting.token)).toList = true ↔
      ∃ s ∈ ss, s.HoldsSeparator := by
  have hsettings : ∀ t ∈ ss.map Setting.token, Token.IsWhole t ∧ t ≠ "&" := fun t ht =>
    ⟨(h.isWhole hss t (List.mem_append_right _ ht)).1, fun he => ampersand_not_mem_settings (he ▸ ht)⟩
  rw [hasSeveral_row_iff (fun t ht => ⟨(h.terms t ht).1.1, (h.terms t ht).1.2.1⟩) hsettings]
  simp only [List.mem_map, exists_exists_and_eq_and, hasSeveral_token]

/-- Without keys, the words of a row are told apart, and the settings behind them are cut off. -/
theorem read_row (h : IsRow formula types) (hss : Setting.AreSound ss) :
    read (Text.spaced (formula ++ types ++ ss.map Setting.token)) = ofBareRow formula types ss := by
  have hwhole := fun t ht => (h.isWhole hss t ht).1
  have hsplit := Token.split_spaced hwhole
  have hcut : Suffix.cut (formula ++ types ++ ss.map Setting.token) =
      (formula ++ types, Suffix.ofSettings ss) :=
    Suffix.cut_settings hss fun t ht => isSetting_term (h.terms t (List.mem_of_getLast? ht)).1
  have hcutFormula := h.cutFormula
  obtain ⟨w, ws, hformula, -, -⟩ := h.first
  have hw : Token.IsWord w := (h.terms w (by simp [hformula])).1.1
  have hrow : formula ++ types ++ ss.map Setting.token = w :: (ws ++ types ++ ss.map Setting.token) := by
    simp [hformula]
  rw [hrow] at hsplit hcut
  rw [hrow, read_of_split hsplit (Entry.ofToken?_word hw), readPositional, hcut, ← hrow, ofBareRow]
  by_cases hseparator : ∃ s ∈ ss, s.HoldsSeparator
  · -- the body is taken for several rolls, but there is no ampersand to divide the row at
    have hamp : "&" ∉ formula ++ types := fun hc => (h.terms _ hc).1.2.1 rfl
    have hkept : [formula ++ types].filter (· ≠ []) = [formula ++ types] := by simp [hformula]
    rw [if_pos hseparator, if_pos ((hasSeveral_row h hss).mpr hseparator),
      List.splitOn_eq_singleton hamp, hkept]
    simp only [List.map_cons, List.map_nil, rollOf, hcutFormula, ofLoneRow]
  · rw [if_neg hseparator, if_neg fun hc => hseparator ((hasSeveral_row h hss).mp hc)]
    simp only [hcutFormula, ofRow, Text.filled?, if_neg h.spaced_ne_empty]

theorem IsRow.isPlain_keyed (h : IsRow formula types) (hus : Setting.AreSound us) :
    ∀ e ∈ keyedRow formula types ++ us.map Setting.entry, e.IsPlain := by
  have hquotable : ∀ t ∈ formula ++ types, Token.IsQuotable t :=
    fun t ht => (h.terms t ht).1.1.isQuotable (h.terms t ht).2
  intro e he
  rcases List.mem_append.mp he with he | he
  · rcases List.mem_cons.mp he with rfl | he
    · exact ⟨by dsimp only; decide,
        Token.isQuotable_spaced fun t ht => hquotable t (List.mem_append_left _ ht)⟩
    · exact Entry.isPlain_ofList? (by decide)
        (fun t ht => hquotable t (List.mem_append_right _ ht)) e (Option.mem_toList.mp he)
  · exact hus.isPlain e he

theorem foldl_keyedRow (h : IsRow formula types) :
    (keyedRow formula types).foldl put {} = ofRow formula types {} := by
  have htypes : ∀ t ∈ types, t ≠ "" ∧ '/' ∉ t.toList := fun t ht =>
    ⟨(h.terms t (List.mem_append_right _ ht)).1.1.1, h.slash t ht⟩
  cases types with
  | nil => rfl
  | cons t ts =>
    show { ofRow formula [] {} with
      types := Selection.ofList? (Entry.valueList ("/".intercalate (t :: ts))) } = _
    rw [Entry.valueList_intercalate htypes]
    rfl

/-- With keys, a row is one roll. -/
theorem read_keyedRow (h : IsRow formula types) (hus : Setting.AreSound us) :
    read (Text.spaced ((keyedRow formula types ++ us.map Setting.entry).map Entry.toToken)) =
      ofRow formula types (Suffix.ofSettings us) := by
  have hput : ∀ x s, put (ofRow formula types x) (Setting.entry s) =
      ofRow formula types (x.put s.entry) := by
    intro x s
    cases s <;> rfl
  rw [read_map_toToken fun e he => (h.isPlain_keyed hus e he).isSound, List.foldl_append,
    foldl_keyedRow h, Suffix.foldl_settings hput]

/-- A row without keys is read as one with keys exactly if no setting holds the separator. -/
theorem ofBareRow_eq_iff :
    ofBareRow formula types ss = ofRow formula types (Suffix.ofSettings ss) ↔
      ∀ s ∈ ss, ¬s.HoldsSeparator := by
  rw [ofBareRow]
  split
  next h =>
    obtain ⟨s, hs, hin⟩ := h
    refine iff_of_false (fun he => ?_) fun hnone => hnone s hs hin
    cases congrArg Damage.rolls he
  next h => exact iff_of_true rfl fun s hs hin => h ⟨s, hs, hin⟩

end Damage

/-! ### Healing -/

namespace Heal

variable {before after : List String} {healing : Option Healing} {ss us : List Setting}

/-- The words of a formula before and after what is restored. No word means anything else. -/
structure IsRow (before after : List String) : Prop where
  ne_nil : before ++ after ≠ []
  terms : ∀ t ∈ before ++ after, IsTerm t ∧ ']' ∉ t.toList

/-- The words of a formula, and among them what is restored. -/
def row (before : List String) (healing : Option Healing) (after : List String) : List String :=
  before ++ (healing.map Keyword.word).toList ++ after

/-- One healing roll with its settings. -/
def ofRow (formula : List String) (healing : Option Healing) (x : Suffix) : Heal :=
  { formula := some (Text.spaced formula)
    healing
    average := x.average
    activity := x.activity
    format := x.format }

/-- The entries of a formula and of what is restored. -/
def keyedRow (formula : List String) (healing : Option Healing) : List Entry :=
  ⟨"formula", Text.spaced formula⟩ :: (healing.map fun k => ⟨"type", Keyword.word k⟩).toList

theorem mem_row {t : String} :
    t ∈ row before healing after ↔ t ∈ before ++ after ∨ ∃ k ∈ healing, t = Keyword.word k := by
  simp only [row, List.mem_append, Option.mem_toList, Option.map_eq_some_iff, Option.mem_def]
  grind

/-- What is restored is named by a word that is no setting. -/
theorem IsRow.word (h : IsRow before after) :
    ∀ t ∈ row before healing after, Token.IsWord t ∧ t ≠ "average" ∧ ']' ∉ t.toList := by
  intro t ht
  rcases mem_row.mp ht with ht | ⟨k, -, rfl⟩
  · exact ⟨(h.terms t ht).1.1, (h.terms t ht).1.2.2, (h.terms t ht).2⟩
  · cases k <;> decide

/-- What is restored is found among the words, wherever it stands. -/
theorem IsRow.told_apart (h : IsRow before after) (healing : Option Healing) :
    (row before healing after).filter (fun t => (healing? t).isNone) = before ++ after ∧
      (row before healing after).filterMap healing? = healing.toList := by
  have hnone : ∀ ts : List String, (∀ t ∈ ts, t ∈ before ++ after) →
      ts.filter (fun t => (healing? t).isNone) = ts ∧ ts.filterMap healing? = [] := by
    intro ts hts
    have hwords : ∀ t ∈ ts, healing? t = none := fun t ht => (h.terms t (hts t ht)).1.2.1
    refine ⟨List.filter_eq_self.mpr fun t ht => ?_, List.filterMap_eq_nil_iff.mpr hwords⟩
    rw [hwords t ht, Option.isNone_none]
  have hword : ∀ k : Healing, healing? (Keyword.word k) = some k := Keyword.Lawful.ofWord?_word
  obtain ⟨hbefore, hbefore'⟩ := hnone before fun t ht => List.mem_append_left _ ht
  obtain ⟨hafter, hafter'⟩ := hnone after fun t ht => List.mem_append_right _ ht
  rw [row, List.filter_append, List.filter_append, List.filterMap_append, List.filterMap_append,
    hbefore, hbefore', hafter, hafter']
  cases healing with
  | none => simp
  | some k => simp [hword]

theorem IsRow.isWhole (h : IsRow before after) (healing : Option Healing)
    (hss : Setting.AreSound ss) :
    ∀ t ∈ row before healing after ++ ss.map Setting.token, Token.IsWhole t ∧ ']' ∉ t.toList :=
  hss.isWhole_append fun t ht => ⟨(h.word t ht).1.isWhole, (h.word t ht).2.2⟩

/-- Without keys, the words of a row are told apart, and the settings behind them are cut off. -/
theorem read_row (h : IsRow before after) (hss : Setting.AreSound ss) :
    read (Text.spaced (row before healing after ++ ss.map Setting.token)) =
      ofRow (before ++ after) healing (Suffix.ofSettings ss) := by
  have hsplit := Token.split_spaced fun t ht => (h.isWhole healing hss t ht).1
  have hcut : Suffix.cut (row before healing after ++ ss.map Setting.token) =
      (row before healing after, Suffix.ofSettings ss) :=
    Suffix.cut_settings hss fun t ht =>
      have hword := h.word t (List.mem_of_getLast? ht)
      Suffix.isSetting_word hword.1 hword.2.1
  obtain ⟨hfilter, hhealing⟩ := h.told_apart healing
  have hlast : healing.toList.getLast? = healing := by cases healing <;> rfl
  -- the first word may be the one for what is restored; in any case it is no entry
  obtain ⟨w, ws, hrow⟩ : ∃ w ws, row before healing after = w :: ws := by
    refine List.exists_cons_of_ne_nil fun hnil => h.ne_nil ?_
    rw [← hfilter, hnil, List.filter_nil]
  have hw : Token.IsWord w := (h.word w (by rw [hrow]; exact List.mem_cons_self)).1
  rw [hrow, List.cons_append] at hsplit
  rw [hrow, List.cons_append, read_of_split hsplit (Entry.ofToken?_word hw), ← List.cons_append, ← hrow,
    readPositional, hcut]
  simp only [hfilter, hhealing, hlast, if_neg h.ne_nil, ofRow]

theorem IsRow.isPlain_keyed (h : IsRow before after) (hus : Setting.AreSound us) :
    ∀ e ∈ keyedRow (before ++ after) healing ++ us.map Setting.entry, e.IsPlain := by
  intro e he
  rcases List.mem_append.mp he with he | he
  · rcases List.mem_cons.mp he with rfl | he
    · exact ⟨by dsimp only; decide, Token.isQuotable_spaced fun t ht =>
        (h.terms t ht).1.1.isQuotable (h.terms t ht).2⟩
    · obtain ⟨k, -, rfl⟩ := Option.map_eq_some_iff.mp (Option.mem_toList.mp he)
      exact ⟨by dsimp only; decide, (Keyword.isPlain_healing k).isQuotable⟩
  · exact hus.isPlain e he

theorem foldl_keyedRow (formula : List String) :
    (keyedRow formula healing).foldl put {} = ofRow formula healing {} := by
  cases healing with
  | none => rfl
  | some k => cases k <;> rfl

theorem read_keyedRow (h : IsRow before after) (hus : Setting.AreSound us) :
    read (Text.spaced ((keyedRow (before ++ after) healing ++ us.map Setting.entry).map
      Entry.toToken)) = ofRow (before ++ after) healing (Suffix.ofSettings us) := by
  have hput : ∀ x s, put (ofRow (before ++ after) healing x) (Setting.entry s) =
      ofRow (before ++ after) healing (x.put s.entry) := by
    intro x s
    cases s <;> rfl
  rw [read_map_toToken fun e he => (h.isPlain_keyed hus e he).isSound, List.foldl_append,
    foldl_keyedRow, Suffix.foldl_settings hput]

end Heal

/-! ### Both kinds of rolls -/

/-- A damage command without keys. -/
def Damage.bareText (formula types : List String) (ss : List Setting) : String :=
  bracketed (Keyword.word Kind.damage) (formula ++ types ++ ss.map Setting.token)

/-- The damage command with keys for the same words and settings. -/
def Damage.keyedText (formula types : List String) (us : List Setting) : String :=
  bracketed (Keyword.word Kind.damage)
    ((keyedRow formula types ++ us.map Setting.entry).map Entry.toToken)

/-- A heal command without keys. -/
def Heal.bareText (before : List String) (healing : Option Healing) (after : List String)
    (ss : List Setting) : String :=
  bracketed (Keyword.word Kind.heal) (row before healing after ++ ss.map Setting.token)

/-- The heal command with keys for the same words and settings. -/
def Heal.keyedText (formula : List String) (healing : Option Healing) (us : List Setting) : String :=
  bracketed (Keyword.word Kind.heal)
    ((keyedRow formula healing ++ us.map Setting.entry).map Entry.toToken)

namespace Occurrence

section Texts

variable {ss us : List Setting} (hss : Setting.AreSound ss) (perm : ss.Perm us)

include hss

/-- A damage command without keys is found as a whole, and read as its row. -/
theorem first?_damage_bare {formula types : List String} (h : Damage.IsRow formula types) :
    first? (Damage.bareText formula types ss) =
      some (whole .damage (.damage (Damage.ofBareRow formula types ss))
        (Damage.bareText formula types ss)) := by
  have hwhole := h.isWhole hss
  rw [Damage.bareText, first?_row (by decide) (fun t ht => (hwhole t ht).2) fun t ht => (hwhole t ht).1,
    Command.read, Damage.read_row h hss]

/-- A heal command without keys is found as a whole, and read as its row. -/
theorem first?_heal_bare {before after : List String} (h : Heal.IsRow before after)
    (healing : Option Healing) :
    first? (Heal.bareText before healing after ss) =
      some (whole .heal (.heal (Heal.ofRow (before ++ after) healing (Suffix.ofSettings ss)))
        (Heal.bareText before healing after ss)) := by
  have hwhole := h.isWhole healing hss
  rw [Heal.bareText, first?_row (by decide) (fun t ht => (hwhole t ht).2) fun t ht => (hwhole t ht).1,
    Command.read, Heal.read_row h hss]

include perm

/-- A damage command with keys is found as a whole, and read as its row. -/
theorem first?_damage_keyed {formula types : List String} (h : Damage.IsRow formula types) :
    first? (Damage.keyedText formula types us) =
      some (whole .damage (.damage (Damage.ofRow formula types (Suffix.ofSettings ss)))
        (Damage.keyedText formula types us)) := by
  have hus := hss.perm perm
  rw [Damage.keyedText, first?_entries (by decide) (h.isPlain_keyed hus), Command.read,
    Damage.read_keyedRow h hus, Suffix.ofSettings_perm hss perm]

/-- A heal command with keys is found as a whole, and read as its row. -/
theorem first?_heal_keyed {before after : List String} (h : Heal.IsRow before after)
    (healing : Option Healing) :
    first? (Heal.keyedText (before ++ after) healing us) =
      some (whole .heal (.heal (Heal.ofRow (before ++ after) healing (Suffix.ofSettings ss)))
        (Heal.keyedText (before ++ after) healing us)) := by
  have hus := hss.perm perm
  rw [Heal.keyedText, first?_entries (by decide) (h.isPlain_keyed hus), Command.read,
    Heal.read_keyedRow h hus, Suffix.ofSettings_perm hss perm]

end Texts

/-- A roll is read as the same with keys and without, whatever the order of the settings and wherever
the word for what is healed stands; except that damage without keys is a list of one roll where a
setting holds the separator. -/
theorem first?_roll_keyed {ss us : List Setting} (hss : Setting.AreSound ss) (perm : ss.Perm us) :
    (∀ formula types, Damage.IsRow formula types →
      first? (Damage.bareText formula types ss) =
          some (whole .damage (.damage (Damage.ofBareRow formula types ss))
            (Damage.bareText formula types ss)) ∧
        first? (Damage.keyedText formula types us) =
          some (whole .damage (.damage (Damage.ofRow formula types (Suffix.ofSettings ss)))
            (Damage.keyedText formula types us)) ∧
        (Damage.ofBareRow formula types ss = Damage.ofRow formula types (Suffix.ofSettings ss) ↔
          ∀ s ∈ ss, ¬s.HoldsSeparator)) ∧
    ∀ before healing after, Heal.IsRow before after →
      first? (Heal.bareText before healing after ss) =
          some (whole .heal (.heal (Heal.ofRow (before ++ after) healing (Suffix.ofSettings ss)))
            (Heal.bareText before healing after ss)) ∧
        first? (Heal.keyedText (before ++ after) healing us) =
          some (whole .heal (.heal (Heal.ofRow (before ++ after) healing (Suffix.ofSettings ss)))
            (Heal.keyedText (before ++ after) healing us)) :=
  ⟨fun _ _ h => ⟨first?_damage_bare hss h, first?_damage_keyed hss perm h,
      Damage.ofBareRow_eq_iff⟩,
    fun _ healing _ h => ⟨first?_heal_bare hss h healing, first?_heal_keyed hss perm h healing⟩⟩

/-- Damage of two types, one of them of the house, and healing with its type within the formula, both
with the same settings in two orders. -/
theorem first?_roll_keyed_bolt :
    let ss : List Setting := [.format "long", .shown, .activity "Fire Bolt"]
    let us : List Setting := [.shown, .format "long", .activity "Fire Bolt"]
    let d : Damage :=
      { formula := some "2d6 + 1"
        types := some (.many ["fire", "ash"])
        average := some (.shown true)
        activity := some "Fire Bolt"
        format := some .long }
    let h : Heal :=
      { formula := some "2d6 + 1"
        healing := some .temporary
        average := some (.shown true)
        activity := some "Fire Bolt"
        format := some .long }
    let bare := Damage.bareText ["2d6", "+", "1"] ["fire", "ash"] ss
    let keyed := Damage.keyedText ["2d6", "+", "1"] ["fire", "ash"] us
    let bare' := Heal.bareText ["2d6"] (some .temporary) ["+", "1"] ss
    let keyed' := Heal.keyedText ["2d6", "+", "1"] (some .temporary) us
    bare = "[[/damage 2d6 + 1 fire ash format=long average activity=\"Fire Bolt\"]]" ∧
      keyed =
        "[[/damage formula=\"2d6 + 1\" type=fire/ash average=true format=long activity=\"Fire Bolt\"]]" ∧
      bare' = "[[/heal 2d6 temp + 1 format=long average activity=\"Fire Bolt\"]]" ∧
      keyed' =
        "[[/heal formula=\"2d6 + 1\" type=temp average=true format=long activity=\"Fire Bolt\"]]" ∧
      (first? bare = some (whole .damage (.damage d) bare) ∧
        first? keyed = some (whole .damage (.damage d) keyed)) ∧
      first? bare' = some (whole .heal (.heal h) bare') ∧
      first? keyed' = some (whole .heal (.heal h) keyed') := by
  intro ss us d h bare keyed bare' keyed'
  have hss : Setting.AreSound ss := ⟨by decide, by decide⟩
  have perm : ss.Perm us := by decide
  have hdamage : Damage.IsRow ["2d6", "+", "1"] ["fire", "ash"] :=
    { first := ⟨"2d6", ["+", "1"], rfl, by decide, by decide⟩
      stop := by decide
      terms := by decide
      slash := by decide }
  have hheal : Heal.IsRow ["2d6"] ["+", "1"] := ⟨by decide, by decide⟩
  obtain ⟨hbare, hkeyed, -⟩ := (first?_roll_keyed hss perm).1 _ _ hdamage
  obtain ⟨hbare', hkeyed'⟩ := (first?_roll_keyed hss perm).2 _ (some .temporary) _ hheal
  have hd : Damage.ofBareRow ["2d6", "+", "1"] ["fire", "ash"] ss = d := by decide +kernel
  have hd' : Damage.ofRow ["2d6", "+", "1"] ["fire", "ash"] (Suffix.ofSettings ss) = d := by
    decide +kernel
  have hh : Heal.ofRow (["2d6"] ++ ["+", "1"]) (some .temporary) (Suffix.ofSettings ss) = h := by
    decide +kernel
  rw [hd] at hbare
  rw [hd'] at hkeyed
  rw [hh] at hbare' hkeyed'
  exact ⟨by decide +kernel, by decide +kernel, by decide +kernel, by decide +kernel,
    ⟨hbare, hkeyed⟩, hbare', hkeyed'⟩

/-- With the separator in its activity, one roll without keys is read as a list of rolls. -/
theorem not_first?_roll_keyed :
    ¬ ∀ (ss us : List Setting) (formula types : List String), Setting.AreSound ss → ss.Perm us →
      Damage.IsRow formula types → ∃ c,
        first? (Damage.bareText formula types ss) =
            some (whole .damage c (Damage.bareText formula types ss)) ∧
          first? (Damage.keyedText formula types us) =
            some (whole .damage c (Damage.keyedText formula types us)) := by
  intro claim
  let ss : List Setting := [.activity "a & b"]
  have hss : Setting.AreSound ss := ⟨by decide, by decide⟩
  have h : Damage.IsRow ["1d6"] ["fire"] :=
    { first := ⟨"1d6", [], rfl, by decide, by decide⟩
      stop := by decide
      terms := by decide
      slash := by decide }
  obtain ⟨c, hbare, hkeyed⟩ := claim ss ss ["1d6"] ["fire"] hss (.refl ss) h
  have hdiffer : (first? (Damage.bareText ["1d6"] ["fire"] ss)).map (·.command) ≠
      (first? (Damage.keyedText ["1d6"] ["fire"] ss)).map (·.command) := by decide +kernel
  rw [hbare, hkeyed] at hdiffer
  exact hdiffer rfl

end Occurrence

end RollMarkup
