import Mathlib
import RollMarkup.Proofs.Command.Damage.Body
import RollMarkup.Proofs.Document.Enclosed

/-!
# Damage is read as it was written

The canonical text of a damage roll is found in a document as that damage roll
(`first?_write_damage`), where its words tell formulas from types (`IsTold`).
-/

namespace RollMarkup

namespace Damage

variable {d : Damage}

/-! ### The parts of the body -/

/-- A damage roll that needs keys is written as its entries. -/
theorem parts_keyed (hrolls : d.rolls = []) (hkeys : d.needsKeys = true) :
    d.parts = d.entries.map Entry.toToken := by
  rw [parts, if_neg (not_not.mpr hrolls), if_pos hkeys]

/-- Without keys, the formula comes first, then the types, and the average last. -/
theorem parts_single (hrolls : d.rolls = []) (hkeys : d.needsKeys = false) :
    d.parts = (Text.filled d.formula).toList ++ Selection.filled d.types ++
      Average.positional d.average := by
  rw [parts, if_neg (not_not.mpr hrolls), if_neg (by simp [hkeys])]

/-- The settings behind a body without keys. -/
def suffix (d : Damage) : Suffix :=
  { average := d.average, format := d.format, activity := Text.filled d.activity }

/-- Rolls are written first, joined by the separator, and the settings behind them. -/
theorem parts_several (hrolls : d.rolls ≠ []) :
    d.parts = " & ".intercalate (d.rolls.map DamageRoll.text) :: d.suffix.tokens := by
  rw [parts, if_pos hrolls, Suffix.tokens, suffix]
  rcases d.format with _ | f <;> rcases Text.filled d.activity with _ | a <;> simp

/-- The text that stands in front of the settings in a body without keys. -/
def front (d : Damage) : String :=
  if d.rolls = [] then DamageRoll.text ⟨d.formula.getD "", d.types⟩
  else " & ".intercalate (d.rolls.map DamageRoll.text)

/-- The only setting of a damage roll that needs no keys is the average, as a flag. -/
theorem suffix_eq_flag (hkeys : d.needsKeys = false) : d.suffix = Suffix.flag d.average := by
  simp only [needsKeys, Bool.or_eq_false_iff, Option.isSome_eq_false_iff,
    Option.isNone_iff_eq_none] at hkeys
  rw [suffix, hkeys.1.1, hkeys.1.2]
  rfl

/-- A body without keys is the row of tokens in front of the settings, and the settings. -/
theorem row_front (hkeys : d.rolls = [] → d.needsKeys = false) {ts : List String}
    (hfront : d.front = Text.spaced ts) (whole : ∀ t ∈ ts ++ d.suffix.tokens, Token.IsWhole t) :
    Text.spaced (d.parts.filter (· ≠ "")) = Text.spaced (ts ++ d.suffix.tokens) := by
  have hts : ∀ t ∈ ts, Token.IsWhole t := fun t ht => whole t (List.mem_append_left _ ht)
  have hrest : ∀ t ∈ d.suffix.tokens, Token.IsWhole t :=
    fun t ht => whole t (List.mem_append_right _ ht)
  by_cases hrolls : d.rolls = []
  · rw [front, if_pos hrolls] at hfront
    rw [suffix_eq_flag (hkeys hrolls), Suffix.tokens_flag] at hrest ⊢
    rw [parts_single hrolls (hkeys hrolls), List.filter_append, Text.filter_filled,
      Token.filter_whole hrest]
    exact Token.spaced_append (fun t ht => by simpa using (List.mem_filter.mp ht).2)
      (fun t ht => (hts t ht).1) hfront _
  · rw [front, if_neg hrolls] at hfront
    rw [parts_several hrolls, hfront, Token.spaced_filter_cons hts hrest]

/-- Without keys, the parts of a single roll make up the row of its words. -/
theorem row_single (hrolls : d.rolls = []) (hkeys : d.needsKeys = false) {ws : List String}
    (hformula : d.formula.getD "" = Text.spaced ws)
    (whole : ∀ t ∈ ws ++ Selection.filled d.types ++ Average.positional d.average,
      Token.IsWhole t) :
    Text.spaced (d.parts.filter (· ≠ "")) =
      Text.spaced (ws ++ Selection.filled d.types ++ Average.positional d.average) := by
  have hwords : ∀ t ∈ ws ++ Selection.filled d.types, Token.IsWhole t :=
    fun t ht => whole t (List.mem_append_left _ ht)
  have hfront : d.front = Text.spaced (ws ++ Selection.filled d.types) := by
    rw [front, if_pos hrolls, DamageRoll.text, hformula]
    exact Token.spaced_filter_cons (fun w hw => hwords w (List.mem_append_left _ hw))
      fun t ht => hwords t (List.mem_append_right _ ht)
  rw [← Suffix.tokens_flag, ← suffix_eq_flag hkeys] at whole ⊢
  exact row_front (fun _ => hkeys) hfront whole

/-- The parts of several rolls make up the row of their words with ampersands between them, and of
the settings. -/
theorem row_several (hrolls : d.rolls ≠ []) {groups : List (List String)}
    (htext : d.rolls.map DamageRoll.text = groups.map Text.spaced) (hne : ∀ g ∈ groups, g ≠ [])
    (whole : ∀ t ∈ ["&"].intercalate groups ++ d.suffix.tokens, Token.IsWhole t) :
    Text.spaced (d.parts.filter (· ≠ "")) =
      Text.spaced (["&"].intercalate groups ++ d.suffix.tokens) :=
  row_front (fun h => absurd h hrolls)
    (by rw [front, if_neg hrolls, htext, intercalate_spaced hne]) whole

/-- No part of the body holds a closing bracket that the damage roll does not hold. -/
theorem closed_parts (h : ∀ s ∈ d.texts, ']' ∉ s.toList) : ∀ p ∈ d.parts, ']' ∉ p.toList := by
  have hmem := fun s hs => h s (mem_texts.mpr hs)
  have hsuffix : ∀ t ∈ d.suffix.tokens, ']' ∉ t.toList :=
    Suffix.closed_tokens (fun t ht => hmem t (.inr (.inr (.inl ht))))
      fun t ht => hmem t (.inr (.inr (.inr (.inl (Text.filled_eq_some.mp ht).1))))
  intro p hp
  by_cases hrolls : d.rolls = []
  · by_cases hkeys : d.needsKeys = true
    · rw [parts_keyed hrolls hkeys] at hp
      obtain ⟨e, he, rfl⟩ := List.mem_map.mp hp
      exact Entry.not_mem_toToken (isPlain_key e he).2.2 (not_mem_entries (.inr rfl) h e he)
    · rw [parts_single hrolls (by simpa using hkeys)] at hp
      rcases List.mem_append.mp hp with hp | hp
      · rcases List.mem_append.mp hp with hp | hp
        · exact hmem p (.inl (Text.filled_eq_some.mp (Option.mem_toList.mp hp)).1)
        · exact hmem p (.inr (.inl (Selection.mem_filled.mp hp).1))
      · exact hsuffix p (List.mem_append_left _ hp)
  · rw [parts_several hrolls] at hp
    rcases List.mem_cons.mp hp with rfl | hp
    · refine Token.not_mem_intercalate (by decide) fun t ht => ?_
      obtain ⟨r, hr, rfl⟩ := List.mem_map.mp ht
      refine Token.not_mem_spaced (by decide) fun s hs => ?_
      refine hmem s (.inr (.inr (.inr (.inr ⟨r, hr, ?_⟩))))
      rcases List.mem_cons.mp (List.mem_filter.mp hs).1 with rfl | hs
      · exact .inl rfl
      · exact .inr (Selection.mem_filled.mp hs).1
    · exact hsuffix p hp

/-! ### The whole text -/

/-- The canonical text of a damage roll is found as a whole, if no text in it closes the brackets. -/
theorem isReadable (h : ∀ s ∈ d.texts, ']' ∉ s.toList) : Command.IsReadable .damage (.damage d) :=
  Occurrence.isReadable_of_closed (by decide) rfl (closed_parts h)

/-- Whether a formula and types are words that have no other meaning in a body without keys. -/
def HasTerms (formula : String) (types : List String) : Prop :=
  ∃ ws, formula = Text.spaced ws ∧ ∀ t ∈ ws ++ types, IsTerm t

/-- A formula and types that are told apart without keys: the formula begins with a word that is no
type and goes on with words that continue it, and the first type does not continue it. Without a
formula the first type is a known one. -/
def IsTold (formula : String) (types : List String) : Prop :=
  (∀ t ∈ types, IsTerm t ∧ ']' ∉ t.toList) ∧
    if formula = "" then ∀ t ∈ types.head?, isType t = true
    else ∃ w ws, formula = Text.spaced (w :: ws) ∧ (∀ v ∈ w :: ws, IsTerm v ∧ ']' ∉ v.toList) ∧
      isType w = false ∧ (∀ v ∈ ws, continuesFormula v = true) ∧
        ∀ t ∈ types.head?, continuesFormula t = false

/-- A formula and types that are told apart are rows of terms, and the cut finds where the types
begin. -/
theorem IsTold.exists_words {formula : String} {types : List String} (h : IsTold formula types) :
    ∃ ws, formula = Text.spaced ws ∧ (∀ t ∈ ws ++ types, IsTerm t ∧ ']' ∉ t.toList) ∧
      cutFormula (ws ++ types) = (ws, types) := by
  obtain ⟨ht, h⟩ := h
  split at h
  next hf => exact ⟨[], hf, ht, cutFormula_types h⟩
  · obtain ⟨w, ws, hf, hws, hw, hmore, hnext⟩ := h
    refine ⟨w :: ws, hf, ?_, cutFormula_append hw hmore hnext⟩
    intro t hmem
    rcases List.mem_append.mp hmem with hmem | hmem
    · exact hws t hmem
    · exact ht t hmem

/-- A formula and types that are told apart are made of terms. -/
theorem IsTold.hasTerms {formula : String} {types : List String} (h : IsTold formula types) :
    HasTerms formula types := by
  obtain ⟨ws, hformula, hterm, -⟩ := h.exists_words
  exact ⟨ws, hformula, fun t ht => (hterm t ht).1⟩

/-- A formula and types that are told apart hold no mark that ends a value or the command. -/
theorem IsTold.not_mem {formula : String} {types : List String} (h : IsTold formula types)
    {x : Char} (hx : x = '"' ∨ x = ']') : ∀ s ∈ formula :: types, x ∉ s.toList := by
  obtain ⟨ws, hf, hterm, -⟩ := h.exists_words
  have hword : ∀ t ∈ ws ++ types, Token.IsQuotable t :=
    fun t ht => (hterm t ht).1.1.isQuotable (hterm t ht).2
  intro s hs
  rcases List.mem_cons.mp hs with rfl | hs
  · rw [hf]
    exact (Token.isQuotable_spaced fun t ht => hword t (List.mem_append_left _ ht)).not_mem hx
  · exact (hword s (List.mem_append_right _ hs)).not_mem hx

/-- A damage roll that its text gives back. There is one roll, with types that can stand in a list, or
there are several, none of them empty. -/
structure IsPlain (d : Damage) : Prop where
  single : d.rolls = [] → IsTold (d.formula.getD "") (Selection.filled d.types) ∧
    ∀ t ∈ Selection.filled d.types, '/' ∉ t.toList
  several : d.rolls ≠ [] → 2 ≤ d.rolls.length
  rolls : ∀ r ∈ d.rolls, IsTold r.formula (Selection.filled r.types) ∧
    (r.formula = "" → Selection.filled r.types ≠ [])
  average : ∀ s, d.average = some (.formula s) → '"' ∉ s.toList ∧ ']' ∉ s.toList ∧
    Numeral.read? s = none ∧ s ≠ "true" ∧ s ≠ "false"
  activity : ∀ s ∈ d.activity, '"' ∉ s.toList ∧ ']' ∉ s.toList

theorem IsPlain.isStable (h : d.IsPlain) : ∀ a ∈ d.average, a.IsStable := by
  intro a ha
  refine Average.isStable_of_formula fun s hs => ?_
  rw [hs] at ha
  exact (h.average s ha).2.2

/-- The settings of a plain damage roll hold no mark that ends a value or the command. -/
theorem IsPlain.not_mem_settings (h : d.IsPlain) {x : Char} (hx : x = '"' ∨ x = ']') :
    (∀ s ∈ d.average.bind Average.formula?, x ∉ s.toList) ∧ ∀ s ∈ d.activity, x ∉ s.toList := by
  refine ⟨fun s hs => ?_, fun s hs => Token.IsQuotable.not_mem (h.activity s hs) hx⟩
  obtain ⟨hquote, hbracket, -⟩ := h.average s (Average.eq_of_mem_formula? hs)
  exact Token.IsQuotable.not_mem ⟨hquote, hbracket⟩ hx

/-- Where there is one roll, all texts of the damage roll are written. -/
theorem IsPlain.not_mem_single (h : d.IsPlain) (hrolls : d.rolls = []) {x : Char}
    (hx : x = '"' ∨ x = ']') : ∀ s ∈ d.texts, x ∉ s.toList := by
  have htold := (h.single hrolls).1.not_mem hx
  obtain ⟨haverage, hactivity⟩ := h.not_mem_settings hx
  intro s hs
  rcases mem_texts.mp hs with hs | hs | hs | hs | ⟨r, hr, -⟩
  · refine htold s (List.mem_cons.mpr (.inl ?_))
    rw [Option.mem_def.mp hs, Option.getD_some]
  · exact Selection.forall_mem_values (by simp) (fun t ht => htold t (List.mem_cons_of_mem _ ht)) s hs
  · exact haverage s hs
  · exact hactivity s hs
  · rw [hrolls] at hr
    cases hr

/-- A single roll with keys is read from them. -/
theorem first?_of_keys (closed : ∀ s ∈ d.texts, ']' ∉ s.toList)
    (quotes : ∀ s ∈ d.texts, '"' ∉ s.toList) (stable : ∀ a ∈ d.average, a.IsStable)
    (hrolls : d.rolls = []) (hkeys : d.needsKeys = true)
    (ht : ∀ t ∈ Selection.filled d.types, '/' ∉ t.toList) :
    Occurrence.first? (Command.write .damage (.damage d)) =
      some (Occurrence.whole .damage (.damage d.settled) (Command.write .damage (.damage d))) := by
  obtain ⟨hwhole, hread⟩ := read_keyed hrolls quotes ht stable
  rw [← parts_keyed hrolls hkeys] at hwhole hread
  exact Occurrence.first?_of_parts (by decide) rfl (closed_parts closed) hwhole
    (congrArg Command.damage hread)

/-- A damage roll written by key is read back as it is settled. -/
theorem first?_keyed (h : d.IsPlain) (hrolls : d.rolls = []) (hkeys : d.needsKeys = true) :
    Occurrence.first? (Command.write .damage (.damage d)) =
      some (Occurrence.whole .damage (.damage d.settled) (Command.write .damage (.damage d))) :=
  first?_of_keys (h.not_mem_single hrolls (.inr rfl)) (h.not_mem_single hrolls (.inl rfl)) h.isStable
    hrolls hkeys (h.single hrolls).2

/-- A single roll written without keys is read back as it is settled. -/
theorem first?_single (h : d.IsPlain) (hrolls : d.rolls = []) (hkeys : d.needsKeys = false) :
    Occurrence.first? (Command.write .damage (.damage d)) =
      some (Occurrence.whole .damage (.damage d.settled) (Command.write .damage (.damage d))) := by
  obtain ⟨ws, hformula, hterm, hcut⟩ := (h.single hrolls).1.exists_words
  have hkeys' := hkeys
  simp only [needsKeys, Bool.or_eq_false_iff] at hkeys'
  obtain ⟨⟨hactivity, hformat⟩, haverage⟩ := hkeys'
  obtain ⟨hwhole, hread⟩ := read_single (fun t ht => (hterm t ht).1) haverage
  have hsettled : d.settled =
      { formula := Text.filled d.formula
        types := Selection.ofList? (Selection.filled d.types)
        average := Average.kept d.average } := by
    rw [settled, if_pos hrolls]
    simp only [Option.isSome_eq_false_iff, Option.isNone_iff_eq_none] at hactivity hformat
    rw [hactivity, hformat]
  rw [hcut, ← hformula, Text.filled?_getD, ← hsettled] at hread
  exact Occurrence.first?_of_row (by decide) rfl
    (closed_parts (h.not_mem_single hrolls (.inr rfl))) hwhole
    (row_single hrolls hkeys hformula hwhole) (congrArg Command.damage hread)

end Damage

/-- The words of a roll: those of the formula, and behind them the types. -/
def DamageRoll.tokens (r : DamageRoll) : List String :=
  Token.split r.formula ++ Selection.filled r.types

namespace Damage

variable {d : Damage}

section Roll

variable {r : DamageRoll}

/-- The tokens of a roll made of terms are the terms. -/
theorem tokens_eq {ws : List String} (hformula : r.formula = Text.spaced ws)
    (hterm : ∀ t ∈ ws ++ Selection.filled r.types, IsTerm t) :
    r.tokens = ws ++ Selection.filled r.types := by
  have hwords : ∀ w ∈ ws, Token.IsWhole w :=
    fun w hw => (hterm w (List.mem_append_left _ hw)).1.isWhole
  rw [DamageRoll.tokens, hformula, Token.split_spaced hwords]

variable (h : HasTerms r.formula (Selection.filled r.types))

include h

theorem HasTerms.tokens : ∀ t ∈ r.tokens, IsTerm t := by
  obtain ⟨ws, hformula, hterm⟩ := h
  rwa [tokens_eq hformula hterm]

/-- The words of a roll make up its text. -/
theorem HasTerms.text : r.text = Text.spaced r.tokens := by
  obtain ⟨ws, hformula, hterm⟩ := h
  have hwords : ∀ w ∈ ws, Token.IsWhole w :=
    fun w hw => (hterm w (List.mem_append_left _ hw)).1.isWhole
  have htypes : ∀ t ∈ Selection.filled r.types, Token.IsWhole t :=
    fun t ht => (hterm t (List.mem_append_right _ ht)).1.isWhole
  rw [tokens_eq hformula hterm, DamageRoll.text, hformula, Token.spaced_filter_cons hwords htypes]

/-- A roll with a formula or a type has a token. -/
theorem HasTerms.tokens_ne_nil (hne : r.formula = "" → Selection.filled r.types ≠ []) :
    r.tokens ≠ [] := by
  obtain ⟨ws, hformula, hterm⟩ := h
  rw [tokens_eq hformula hterm]
  intro he
  obtain ⟨rfl, htypes⟩ := List.append_eq_nil_iff.mp he
  exact hne hformula htypes

end Roll

/-- Rolls that have words make up groups of them, one for each roll. -/
theorem groups_of_rolls {rs : List DamageRoll}
    (h : ∀ r ∈ rs, HasTerms r.formula (Selection.filled r.types))
    (hne : ∀ r ∈ rs, r.formula = "" → Selection.filled r.types ≠ []) :
    (∀ g ∈ rs.map DamageRoll.tokens, g ≠ [] ∧ ∀ t ∈ g, IsTerm t) ∧
      rs.map DamageRoll.text = (rs.map DamageRoll.tokens).map Text.spaced := by
  constructor
  · intro g hg
    obtain ⟨r, hr, rfl⟩ := List.mem_map.mp hg
    exact ⟨(h r hr).tokens_ne_nil (hne r hr), (h r hr).tokens⟩
  · rw [List.map_map]
    exact List.map_congr_left fun r hr => (h r hr).text

/-- The words of a roll that is told are read as that roll. -/
theorem IsTold.rollOf_tokens {r : DamageRoll} (h : IsTold r.formula (Selection.filled r.types)) :
    rollOf r.tokens = ⟨r.formula, Selection.ofList? (Selection.filled r.types)⟩ := by
  obtain ⟨ws, hformula, hterm, hcut⟩ := h.exists_words
  rw [tokens_eq hformula fun t ht => (hterm t ht).1, rollOf, hcut, hformula]

/-- What is written of a damage roll with a list of rolls. -/
def onlyRolls (d : Damage) : Damage :=
  { d with formula := none, types := none }

/-- Beside a list of rolls, no other formula and no other types are written. -/
theorem parts_onlyRolls (hrolls : d.rolls ≠ []) : d.onlyRolls.parts = d.parts := by
  rw [parts_several hrolls, parts_several (d := d.onlyRolls) hrolls]
  rfl

/-- Where there are several rolls, no text of theirs and no setting holds a mark that ends a value. -/
theorem IsPlain.not_mem_several (h : d.IsPlain) {x : Char} (hx : x = '"' ∨ x = ']') :
    ∀ s ∈ d.onlyRolls.texts, x ∉ s.toList := by
  obtain ⟨haverage, hactivity⟩ := h.not_mem_settings hx
  intro s hs
  rcases mem_texts.mp hs with hs | hs | hs | hs | ⟨r, hr, hs⟩
  · cases hs
  · cases hs
  · exact haverage s hs
  · exact hactivity s hs
  · have htold := (h.rolls r hr).1.not_mem hx
    rcases hs with rfl | hs
    · exact htold _ List.mem_cons_self
    · exact Selection.forall_mem_values (by simp) (fun t ht => htold t (List.mem_cons_of_mem _ ht))
        s hs

/-- A list of rolls is read back roll by roll, with the settings that were written behind it. -/
theorem first?_several (h : d.IsPlain) (hrolls : d.rolls ≠ []) :
    Occurrence.first? (Command.write .damage (.damage d)) =
      some (Occurrence.whole .damage (.damage d.settled) (Command.write .damage (.damage d))) := by
  have hroll := fun r hr => (h.rolls r hr).1.hasTerms
  have hsound : d.suffix.IsSound :=
    { stable := h.isStable
      average := fun a ha => Average.not_mem_toText (.inl rfl) fun s hs =>
        (h.not_mem_settings (.inl rfl)).1 s (Option.bind_eq_some_iff.mpr ⟨a, ha, hs⟩)
      activity := fun v hv =>
        (h.not_mem_settings (.inl rfl)).2 v (Text.filled_eq_some.mp hv).1 }
  obtain ⟨hgroups, htext⟩ := groups_of_rolls hroll fun r hr => (h.rolls r hr).2
  have hlen : 2 ≤ (d.rolls.map DamageRoll.tokens).length := by
    rw [List.length_map]
    exact h.several hrolls
  have hread : (d.rolls.map DamageRoll.tokens).map rollOf =
      d.rolls.map fun r => ⟨r.formula, Selection.ofList? (Selection.filled r.types)⟩ := by
    rw [List.map_map]
    exact List.map_congr_left fun r hr => (h.rolls r hr).1.rollOf_tokens
  obtain ⟨hwhole, hseveral⟩ := read_several hlen hgroups hsound
  have hrow := row_several hrolls htext (fun g hg => (hgroups g hg).1) hwhole
  have hclosed : ∀ p ∈ d.parts, ']' ∉ p.toList := by
    rw [← parts_onlyRolls hrolls]
    exact closed_parts (h.not_mem_several (.inr rfl))
  refine Occurrence.first?_of_row (by decide) rfl hclosed hwhole hrow (congrArg Command.damage ?_)
  rw [hseveral, hread, settled, if_neg hrolls]
  rfl

/-- The canonical text of a damage roll is read as that damage roll: without empty values and
without an average that is not shown. -/
theorem first?_write_damage (h : d.IsPlain) :
    Occurrence.first? (Command.write .damage (.damage d)) =
      some (Occurrence.whole .damage (.damage d.settled) (Command.write .damage (.damage d))) := by
  by_cases hrolls : d.rolls = []
  · by_cases hkeys : d.needsKeys = true
    · exact first?_keyed h hrolls hkeys
    · exact first?_single h hrolls (by simpa using hkeys)
  · exact first?_several h hrolls

/-- Two rolls, one of them of a house type and the other without a formula, and an activity with a
space. -/
def fireAndCold : Damage :=
  { rolls := [⟨"1d6 + 2", some (.many ["infernal", "fire"])⟩, ⟨"", some (.one "cold")⟩]
    average := some (.shown false)
    activity := some "Second Wind" }

/-- Both rolls come back with the activity in quotes, and an average that is not shown counts as
absent. -/
theorem first?_write_fireAndCold :
    fireAndCold.IsPlain ∧
      Occurrence.first? (Command.write .damage (.damage fireAndCold)) =
        some (Occurrence.whole .damage (.damage { fireAndCold with average := none })
          "[[/damage 1d6 + 2 infernal fire & cold activity=\"Second Wind\"]]") := by
  have hfire : IsTold "1d6 + 2" ["infernal", "fire"] :=
    ⟨by decide, "1d6", ["+", "2"], by decide, by decide, by decide, by decide, by decide⟩
  have hcold : IsTold "" ["cold"] := ⟨by decide, by rw [if_pos rfl]; decide⟩
  have h : fireAndCold.IsPlain :=
    { single := by
        intro hrolls
        cases hrolls
      several := by decide
      rolls := by
        intro r hr
        rcases List.mem_pair.mp hr with rfl | rfl
        · exact ⟨hfire, by decide⟩
        · exact ⟨hcold, by decide⟩
      average := by
        intro s hs
        cases hs
      activity := by decide }
  exact ⟨h, first?_write_damage h⟩

end Damage

end RollMarkup
