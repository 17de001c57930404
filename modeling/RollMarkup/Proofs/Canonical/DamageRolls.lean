import Mathlib
import RollMarkup.Proofs.Canonical.Damage
import RollMarkup.Proofs.Known.House

/-!
# Canonical texts of lists of damage rolls

A damage roll with a list of rolls is written as several rolls, also if the list has one only. It is
read as several rolls only where the separator is seen, and a single roll has no settings without keys.
So the text is canonical if there are two rolls, nothing that needs keys, or a separator in the activity
(`first?_write_rolls`), and not otherwise (`canonical_lone_long`).
-/

namespace RollMarkup

namespace House

/-- A text that is one command is without findings if it is canonical and its names are known. -/
theorem findings_whole {h : House} {k : Kind} {c : Command} {text : String}
    (hfound : Occurrence.first? text = some (Occurrence.whole k c text)) :
    h.findings text = [] ↔ c.write k = text ∧ h.unknownNames c = [] := by
  have hscan := Occurrence.scan_text (o := Occurrence.whole k c text) ⟨text, hfound⟩
  have hcanonical : (Occurrence.whole k c text).canonical = c.write k := rfl
  have htext : (Occurrence.whole k c text).text = text := rfl
  have hcommand : (Occurrence.whole k c text).command = c := rfl
  rw [htext] at hscan
  rw [findings, hscan, List.flatMap_singleton, findingsAt, List.map_eq_nil_iff]
  show complaints h (Occurrence.whole k c text) = [] ↔ _
  rw [complaints, List.append_eq_nil_iff, hcanonical, htext, hcommand]
  simp

end House

namespace Suffix

theorem mem_tokens {s : Suffix} {t : String} :
    t ∈ s.tokens ↔ t ∈ Average.positional s.average ∨
      (∃ f ∈ s.format, t = (Entry.mk "format" (Keyword.word f)).toToken) ∨
        ∃ v ∈ s.activity, t = (Entry.mk "activity" v).toToken := by
  simp [tokens, eq_comm]

end Suffix

namespace Damage

variable {d : Damage}

/-! ### Separators in a row -/

/-- Of the settings, only the activity may hold a separator, if the average is a flag or a number. -/
theorem hasSeveral_tokens_iff {s : Suffix} (ha : ∀ a ∈ s.average, a.formula? = none) :
    (∃ t ∈ s.tokens, hasSeveral t.toList = true) ↔ ∃ v ∈ s.activity, hasSeveral v.toList = true := by
  have haverage : ∀ t ∈ Average.positional s.average, hasSeveral t.toList = false := by
    intro t ht
    rcases hs : s.average with _ | (_ | _) | n | u <;> rw [hs] at ht ha
    · cases ht
    · cases ht
    · obtain rfl := List.mem_singleton.mp ht
      decide
    · obtain rfl := List.mem_singleton.mp ht
      rw [hasSeveral_toToken (by dsimp only; decide)]
      exact hasSeveral_word (Numeral.isPlain_write n).1
    · cases ha _ rfl
  have hformat : ∀ f : DisplayFormat,
      hasSeveral (Entry.mk "format" (Keyword.word f)).toToken.toList = false := by
    intro f
    cases f <;> decide
  constructor
  · rintro ⟨t, ht, hin⟩
    rcases Suffix.mem_tokens.mp ht with ht | ⟨f, -, rfl⟩ | ⟨v, hv, rfl⟩
    · rw [haverage t ht] at hin
      cases hin
    · rw [hformat f] at hin
      cases hin
    · rw [hasSeveral_toToken (by dsimp only; decide)] at hin
      exact ⟨v, hv, hin⟩
  · rintro ⟨v, hv, hin⟩
    refine ⟨_, Suffix.mem_tokens.mpr (.inr (.inr ⟨v, hv, rfl⟩)), ?_⟩
    rw [hasSeveral_toToken (by dsimp only; decide)]
    exact hin

/-- No setting is written as the separator. -/
theorem ampersand_not_mem_tokens (s : Suffix) : "&" ∉ s.tokens := by
  have hentry : ∀ e : Entry, e.toToken ≠ "&" := Entry.toToken_ne (by decide)
  have hall : ∀ t ∈ s.tokens, t ≠ "&" :=
    Suffix.forall_mem_tokens (by decide) (fun _ _ => hentry _) (fun _ _ => hentry _)
      fun _ _ => hentry _
  exact fun hamp => hall _ hamp rfl

/-! ### Lists of rolls -/

/-- A formula and types made of terms hold no quote. -/
theorem HasTerms.no_quote {formula : String} {types : List String} (h : HasTerms formula types) :
    ∀ s ∈ formula :: types, '"' ∉ s.toList := by
  obtain ⟨ws, rfl, hterm⟩ := h
  have hword : ∀ t ∈ ws ++ types, '"' ∉ t.toList :=
    fun t ht hquote => ((hterm t ht).1.2 _ hquote).2.2 rfl
  intro s hs
  rcases List.mem_cons.mp hs with rfl | hs
  · exact Token.not_mem_spaced (by decide) fun t ht => hword t (List.mem_append_left _ ht)
  · exact hword s (List.mem_append_right _ hs)

/-- A list of rolls, each made of words that mean nothing else, and settings that can stand behind
them. The average is a flag or a number. -/
structure IsRolled (d : Damage) : Prop where
  rolls : d.rolls ≠ []
  words : ∀ r ∈ d.rolls, HasTerms r.formula (Selection.filled r.types)
  filled : ∀ r ∈ d.rolls, r.formula = "" → Selection.filled r.types ≠ []
  closed : ∀ r ∈ d.rolls, ∀ s ∈ r.formula :: Selection.values r.types, ']' ∉ s.toList
  average : ∀ a ∈ d.average, a.formula? = none
  activity : ∀ v ∈ d.activity, Token.IsQuotable v

/-- Whether the canonical text of a list of rolls is read as such, or has no need to: there are several
rolls, nothing that needs keys, or a separator in the activity. -/
def ShowsRolls (d : Damage) : Prop :=
  2 ≤ d.rolls.length ∨ d.needsKeys = false ∨ ∃ v ∈ d.activity, hasSeveral v.toList = true

/-- Beside a list of rolls, the canonical text says nothing of another formula or other types. -/
theorem write_onlyRolls (hrolls : d.rolls ≠ []) :
    Command.write .damage (.damage d.onlyRolls) = Command.write .damage (.damage d) := by
  show bracketed "damage" d.onlyRolls.parts = bracketed "damage" d.parts
  rw [parts_onlyRolls hrolls]

section Rolled

variable (h : d.IsRolled)

include h

/-- A flag or a number is an average that its text gives back. -/
theorem IsRolled.stable : ∀ a ∈ d.average, a.IsStable := by
  intro a ha
  refine Average.isStable_of_formula fun s hs => ?_
  have hnone := h.average a ha
  rw [hs] at hnone
  cases hnone

/-- What is written of a list of rolls is closed. -/
theorem IsRolled.isClosed : d.onlyRolls.IsClosed :=
  { formula := fun s hs => by cases hs
    types := fun s hs => by cases hs
    average := fun a ha => ⟨h.stable a ha, fun s hs => by
      rw [h.average a ha] at hs
      cases hs⟩
    activity := fun v hv => (h.activity v hv).2
    rolls := fun r hr => ⟨h.closed r hr, h.filled r hr⟩ }

/-- What is written of a list of rolls holds no quote. -/
theorem IsRolled.no_quote : ∀ s ∈ d.onlyRolls.texts, '"' ∉ s.toList := by
  intro s hs
  rcases mem_texts.mp hs with hs | hs | hs | hs | ⟨r, hr, hs⟩
  · cases hs
  · cases hs
  · obtain ⟨a, ha, hs⟩ := Option.bind_eq_some_iff.mp hs
    rw [h.average a ha] at hs
    cases hs
  · exact (h.activity s hs).1
  · have hwords := (h.words r hr).no_quote
    rcases hs with rfl | hs
    · exact hwords _ List.mem_cons_self
    · exact Selection.forall_mem_values (by simp) (fun t ht => hwords t (List.mem_cons_of_mem _ ht))
        s hs

theorem IsRolled.isSound : d.suffix.IsSound :=
  suffix_isSound (d := d.onlyRolls) h.no_quote h.stable

theorem IsRolled.groups :
    (∀ g ∈ d.rolls.map DamageRoll.tokens, g ≠ [] ∧ ∀ t ∈ g, IsTerm t) ∧
      d.rolls.map DamageRoll.text = (d.rolls.map DamageRoll.tokens).map Text.spaced :=
  groups_of_rolls h.words h.filled

/-- If there are fewer than two rolls, there is one. -/
theorem IsRolled.exists_lone (hlen : ¬ 2 ≤ d.rolls.length) : ∃ r, d.rolls = [r] := by
  have hpos := List.length_pos_iff.mpr h.rolls
  exact List.length_eq_one_iff.mp (by omega)

/-- The settings can stand behind the words of the rolls. -/
theorem IsRolled.follows : d.suffix.Follows (["&"].intercalate (d.rolls.map DamageRoll.tokens)) :=
  follows_groups (by simpa using h.rolls) h.groups.1

/-- The words of a lone roll are all that stands in front of the settings. -/
theorem IsRolled.follows_lone {r : DamageRoll} (hr : d.rolls = [r]) : d.suffix.Follows r.tokens := by
  have hfollows := h.follows
  rwa [hr, List.map_singleton, List.intercalate_singleton] at hfollows

/-- In front of the settings stand the words of the rolls, with the separator between each two. -/
theorem IsRolled.front :
    d.onlyRolls.front = Text.spaced (["&"].intercalate (d.rolls.map DamageRoll.tokens)) := by
  obtain ⟨hgroups, htext⟩ := h.groups
  have hrolls : d.onlyRolls.rolls ≠ [] := h.rolls
  rw [Damage.front, if_neg hrolls]
  show " & ".intercalate (d.rolls.map DamageRoll.text) = _
  rw [htext, intercalate_spaced fun g hg => (hgroups g hg).1]

/-- The canonical text of a list of rolls is fixed if the separator is seen or no setting needs a key. -/
theorem IsRolled.isFixed (hseen : hasSeveral (Text.spaced
      (["&"].intercalate (d.rolls.map DamageRoll.tokens) ++ d.suffix.tokens)).toList = true ∨
      d.needsKeys = false) :
    Command.IsFixed .damage (.damage d.onlyRolls) := by
  refine isFixed_row h.isClosed h.isSound (fun hrolls => absurd hrolls h.rolls) h.front h.follows ?_
  split
  · rw [splitOn_groups (by simpa using h.rolls) h.groups.1]
    exact fun g hg => (h.groups.1 g hg).1
  next hone => exact hseen.resolve_left hone

/-- The separator is seen in the row between two rolls, or in the activity. -/
theorem IsRolled.hasSeveral_row :
    hasSeveral (Text.spaced
        (["&"].intercalate (d.rolls.map DamageRoll.tokens) ++ d.suffix.tokens)).toList = true ↔
      2 ≤ d.rolls.length ∨ ∃ v ∈ d.activity, hasSeveral v.toList = true := by
  have hgroups := h.groups.1
  by_cases hlen : 2 ≤ d.rolls.length
  · exact iff_of_true (hasSeveral_groups (by rwa [List.length_map]) (fun g hg => (hgroups g hg).1) _)
      (.inl hlen)
  · obtain ⟨r, hr⟩ := h.exists_lone hlen
    rw [or_iff_right hlen]
    rw [hr, List.map_singleton] at hgroups ⊢
    obtain ⟨-, hterm⟩ := hgroups r.tokens (List.mem_singleton_self _)
    have hsettings : ∀ t ∈ d.suffix.tokens, Token.IsWhole t ∧ t ≠ "&" := fun t ht =>
      ⟨Suffix.isWhole_tokens h.isSound t ht, fun he => ampersand_not_mem_tokens _ (he ▸ ht)⟩
    have hactivity : (∃ v ∈ d.suffix.activity, hasSeveral v.toList = true) ↔
        ∃ v ∈ d.activity, hasSeveral v.toList = true := by
      constructor
      · rintro ⟨v, hv, hin⟩
        exact ⟨v, (Text.filled_eq_some.mp hv).1, hin⟩
      · rintro ⟨v, hv, hin⟩
        refine ⟨v, Text.filled_eq_some.mpr ⟨hv, ?_⟩, hin⟩
        rintro rfl
        cases hin
    rw [List.intercalate_singleton,
      hasSeveral_row_iff (fun t ht => ⟨(hterm t ht).1, (hterm t ht).2.1⟩) hsettings, ← hactivity]
    exact hasSeveral_tokens_iff h.average

/-- What a lone roll is read as holds no quote. -/
theorem IsRolled.no_quote_lone {r : DamageRoll} (hr : r ∈ d.rolls) :
    ∀ s ∈ (lone r.tokens d.suffix).texts, '"' ∉ s.toList := by
  have hterm := (h.groups.1 r.tokens (List.mem_map_of_mem hr)).2
  have hcut := cutFormula_fst_append_snd r.tokens
  have hword : ∀ t ∈ (cutFormula r.tokens).1 ++ (cutFormula r.tokens).2, '"' ∉ t.toList := by
    rw [hcut]
    exact fun t ht hquote => ((hterm t ht).1.2 _ hquote).2.2 rfl
  intro s hs
  rcases mem_texts.mp hs with hs | hs | hs | hs | ⟨r, hr, -⟩
  · obtain ⟨-, rfl⟩ : _ ∧ Text.spaced (cutFormula r.tokens).1 = s := by
      simpa [lone, Text.filled?] using hs
    exact Token.not_mem_spaced (by decide) fun t ht => hword t (List.mem_append_left _ ht)
  · rw [lone, Selection.values_ofList?] at hs
    exact hword s (List.mem_append_right _ hs)
  · obtain ⟨a, ha, hs⟩ := Option.bind_eq_some_iff.mp hs
    rw [h.average a (Option.mem_filter_iff.mp ha |>.1)] at hs
    cases hs
  · exact (h.activity s (Text.filled_eq_some.mp hs).1).1
  · cases hr

/-- A lone roll whose settings need keys is read as the single one, and that one is written with
keys. -/
theorem IsRolled.first?_lone {r : DamageRoll} (hr : d.rolls = [r]) (hkeys : d.needsKeys = true)
    (hone : hasSeveral (Text.spaced (r.tokens ++ d.suffix.tokens)).toList = false) :
    ∃ e : Command, Occurrence.first? (Command.write .damage (.damage d.onlyRolls)) =
        some (Occurrence.whole .damage e (Command.write .damage (.damage d.onlyRolls))) ∧
      e.write .damage ≠ Command.write .damage (.damage d.onlyRolls) := by
  obtain ⟨hgroups, htext⟩ := h.groups
  obtain ⟨hne, hterm⟩ := hgroups r.tokens (by simp [hr])
  have hfollows := h.follows_lone hr
  have hwhole := hfollows.isWhole h.isSound
  have hread := read_follows h.isSound hfollows
  rw [hone, if_neg Bool.false_ne_true] at hread
  have hrow : Text.spaced (d.onlyRolls.parts.filter (· ≠ "")) =
      Text.spaced (r.tokens ++ d.suffix.tokens) := by
    have hrow := row_several (d := d.onlyRolls) h.rolls htext fun g hg => (hgroups g hg).1
    rw [hr, List.map_singleton, List.intercalate_singleton] at hrow
    exact hrow hwhole
  refine ⟨.damage (lone r.tokens d.suffix), Occurrence.first?_of_row (by decide) rfl
    (closed_parts h.isClosed.texts) hwhole hrow (congrArg Command.damage hread), ?_⟩
  have hlone : (lone r.tokens d.suffix).needsKeys = true := by
    rw [needsKeys] at hkeys ⊢
    rw [← hkeys, ← Average.any_replacesComputed_kept d.average, ← Text.filled_filled d.activity]
    rfl
  have hsound : ∀ e ∈ (lone r.tokens d.suffix).entries, e.IsSound := fun e he =>
    ⟨(isPlain_key e he).1, not_mem_entries (.inl rfl) (h.no_quote_lone (by simp [hr])) e he⟩
  have hentries := Entry.isWhole_map_toToken hsound
  have hrow' := congrArg Text.spaced (Token.filter_whole hentries)
  show bracketed "damage" (lone r.tokens d.suffix).parts ≠ bracketed "damage" d.onlyRolls.parts
  rw [parts_keyed rfl hlone, Ne,
    Occurrence.bracketed_eq_iff_of_row hentries hwhole hrow' hrow]
  -- one row begins with a word, and the other with an entry
  intro hsame
  obtain ⟨w, ws, hw⟩ := List.exists_cons_of_ne_nil hne
  have hmem : w ∈ (lone r.tokens d.suffix).entries.map Entry.toToken := by
    rw [hsame, hw]
    exact List.mem_cons_self
  obtain ⟨e, -, he⟩ := List.mem_map.mp hmem
  have hequals : '=' ∈ w.toList := by simp [← he, Entry.toList_toToken]
  exact ((hterm w (by simp [hw])).1.2 _ hequals).2.1 rfl

/-- The canonical text of a list of rolls is found as a whole. It is its own canonical text, and so
without findings in any house, if it shows the rolls and only then. -/
theorem first?_write_rolls :
    ∃ e : Command, Occurrence.first? (Command.write .damage (.damage d)) =
        some (Occurrence.whole .damage e (Command.write .damage (.damage d))) ∧
      (e.write .damage = Command.write .damage (.damage d) ↔ d.ShowsRolls) ∧
      ∀ house : House, house.findings (Command.write .damage (.damage d)) = [] ↔ d.ShowsRolls := by
  obtain ⟨e, hfound, hiff⟩ : ∃ e : Command,
      Occurrence.first? (Command.write .damage (.damage d.onlyRolls)) =
        some (Occurrence.whole .damage e (Command.write .damage (.damage d.onlyRolls))) ∧
      (e.write .damage = Command.write .damage (.damage d.onlyRolls) ↔ d.ShowsRolls) := by
    by_cases hseen : hasSeveral (Text.spaced
        (["&"].intercalate (d.rolls.map DamageRoll.tokens) ++ d.suffix.tokens)).toList = true
    · obtain ⟨e, hfound, hwrite⟩ := h.isFixed (.inl hseen)
      exact ⟨e, hfound, iff_of_true hwrite ((h.hasSeveral_row.mp hseen).imp_right .inr)⟩
    · -- a lone roll, which is read as the single one
      obtain ⟨hlen, hactivity⟩ := not_or.mp (mt h.hasSeveral_row.mpr hseen)
      obtain ⟨r, hr⟩ : ∃ r, d.rolls = [r] := h.exists_lone hlen
      rw [hr, List.map_singleton, List.intercalate_singleton, Bool.not_eq_true] at hseen
      by_cases hkeys : d.needsKeys = true
      · obtain ⟨e, hfound, hwrite⟩ := h.first?_lone hr hkeys hseen
        refine ⟨e, hfound, iff_of_false hwrite ?_⟩
        rintro (hlen' | hkeys' | hactivity')
        · exact hlen hlen'
        · exact absurd (hkeys.symm.trans hkeys') (by decide)
        · exact hactivity hactivity'
      · rw [Bool.not_eq_true] at hkeys
        obtain ⟨e, hfound, hwrite⟩ := h.isFixed (.inr hkeys)
        exact ⟨e, hfound, iff_of_true hwrite (.inr (.inl hkeys))⟩
  -- a damage roll has no names that a house could miss
  have hnames : ∀ house : House, house.unknownNames e = [] := by
    have hread := Occurrence.first?_bracketed (h := .ofKind .damage) (by decide)
      (closed_parts h.isClosed.texts)
    obtain rfl := congrArg Occurrence.command (Option.some.inj (hfound.symm.trans hread))
    exact fun house => rfl
  rw [write_onlyRolls h.rolls] at hfound hiff
  refine ⟨e, hfound, hiff, fun house => ?_⟩
  rw [House.findings_whole hfound, hnames, ← hiff]
  exact and_iff_left rfl

end Rolled

/-- Two rolls with types of their own, a number in place of the average, a format and an activity. -/
def fireAndColdLong : Damage :=
  { rolls := [⟨"1d6", some (.one "fire")⟩, ⟨"2d4", some (.many ["cold", "frost"])⟩]
    average := some (.number 8)
    format := some .long
    activity := some "Second Wind" }

/-- The canonical text of both rolls is fixed, and nothing in it is complained about. -/
theorem first?_write_fireAndColdLong :
    fireAndColdLong.IsRolled ∧ fireAndColdLong.ShowsRolls ∧
      ∃ e : Command,
        Occurrence.first? (Command.write .damage (.damage fireAndColdLong)) =
          some (Occurrence.whole .damage e (Command.write .damage (.damage fireAndColdLong))) ∧
        e.write .damage =
          "[[/damage 1d6 fire & 2d4 cold frost average=8 format=long activity=\"Second Wind\"]]" ∧
        House.findings {} (Command.write .damage (.damage fireAndColdLong)) = [] := by
  have hfire : HasTerms "1d6" ["fire"] := ⟨["1d6"], by decide, by decide⟩
  have hcold : HasTerms "2d4" ["cold", "frost"] := ⟨["2d4"], by decide, by decide⟩
  have h : fireAndColdLong.IsRolled :=
    { rolls := by decide
      words := by
        intro r hr
        rcases List.mem_pair.mp hr with rfl | rfl
        · exact hfire
        · exact hcold
      filled := by decide
      closed := by decide
      average := by decide
      activity := by decide }
  have hshows : fireAndColdLong.ShowsRolls := .inl (by decide)
  obtain ⟨e, hfound, hiff, hlint⟩ := first?_write_rolls h
  refine ⟨h, hshows, e, hfound, ?_, (hlint {}).mpr hshows⟩
  rw [hiff.mpr hshows]
  decide

/-- A lone roll with a format is read as the single one, which is written with keys. -/
theorem canonical_lone_long :
    let d : Damage := { rolls := [⟨"1d6", some (.one "fire")⟩], format := some .long }
    Command.write .damage (.damage d) = "[[/damage 1d6 fire format=long]]" ∧
      (Occurrence.first? "[[/damage 1d6 fire format=long]]").map Occurrence.canonical =
        some "[[/damage formula=1d6 type=fire format=long]]" ∧
      House.findings {} "[[/damage 1d6 fire format=long]]" ≠ [] := by
  decide +kernel

end Damage

end RollMarkup
