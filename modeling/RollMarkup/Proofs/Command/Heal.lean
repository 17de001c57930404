import Mathlib
import RollMarkup.Proofs.Document.Enclosed
import RollMarkup.Proofs.Token.Suffix

/-!
# Healing is read as it was written

A body with keys gives back every field (`read_keyed`), where both words for temporary hit points count
as one. A body without keys gives back its words (`read_bare`), where none of them names what is
restored. So the canonical text of a healing roll is found in a document as that healing roll, up to the
word for temporary hit points (`first?_write_heal`).
-/

namespace RollMarkup

namespace Heal

variable {h : Heal}

/-- Healing that needs keys is written as its entries. -/
theorem parts_keyed (hkeys : h.needsKeys = true) : h.parts = h.entries.map Entry.toToken := by
  rw [parts, if_pos hkeys]

/-- The word for temporary hit points, if they are meant. -/
def temporary (h : Heal) : List String :=
  if h.healing.any Healing.isTemporary then [Keyword.word Healing.temporary] else []

/-- Without keys, the formula comes first, then the word for temporary hit points, and the average
last. -/
theorem parts_bare (hkeys : h.needsKeys = false) :
    h.parts = (Text.filled h.formula).toList ++ (h.temporary ++ Average.positional h.average) := by
  rw [parts, if_neg (by simp [hkeys]), List.append_assoc, temporary]

/-! ### Bodies with keys -/

theorem add_of_ofToken? (h : Heal) (t : String) (e : Entry) (he : Entry.ofToken? t = some e) :
    h.add t = h.put e := by
  rw [add, he]

/-- A body whose first token has a key, if there is one, is read token by token. -/
theorem read_of_key {body : String} {ts : List String} (hts : Token.split body = ts)
    (key : ∀ t ∈ ts.head?, '=' ∈ t.toList) : read body = ts.foldl add {} := by
  rw [read, hts]
  cases ts with
  | nil => rfl
  | cons t ts => exact if_pos (Entry.isSome_ofToken? (key t rfl))

/-- A row of entries is read entry by entry. -/
theorem read_map_toToken {es : List Entry} (hes : ∀ e ∈ es, e.IsSound) :
    read (Text.spaced (es.map Entry.toToken)) = es.foldl put {} := by
  have hkey : ∀ t ∈ (es.map Entry.toToken).head?, '=' ∈ t.toList := fun t ht =>
    Entry.equals_mem_of_mem_map (List.mem_of_head? ht)
  rw [read_of_key (Token.split_spaced (Entry.isWhole_map_toToken hes)) hkey,
    Entry.foldl_toToken add_of_ofToken? hes]

/-- What the body with keys says: no empty values, no average that is not shown, and one word for
temporary hit points. -/
def settled (h : Heal) : Heal :=
  { formula := Text.filled h.formula
    healing := h.healing.map fun k => if k.isTemporary then .temporaryHitPoints else .hitPoints
    average := Average.kept h.average
    activity := Text.filled h.activity
    format := h.format }

section Keyed

variable (e : Heal)

/-! Each entry sets its own field, if it is there. -/

theorem put_formula (o : Option String) :
    Entry.putOption put e (o.map (Entry.mk "formula")) =
      { e with formula := o.or e.formula } := by
  cases o <;> rfl

theorem put_healing (o : Option Healing) :
    Entry.putOption put e (o.map fun k => ⟨"type", keyedWord k⟩) =
      { e with
        healing := (o.map fun k => if k.isTemporary then .temporaryHitPoints else .hitPoints).or
          e.healing } := by
  cases o with
  | none => rfl
  | some k => cases k <;> rfl

theorem put_average {a : Option Average} (ha : ∀ b ∈ a, b.IsStable) :
    Entry.putOption put e (Average.entry? a) =
      { e with average := (Average.kept a).or e.average } := by
  rw [Average.putOption_of_isStable (fun b => { e with average := some b }) (fun _ => rfl) ha]
  cases Average.kept a <;> rfl

theorem put_activity (o : Option String) :
    Entry.putOption put e (o.map (Entry.mk "activity")) =
      { e with activity := o.or e.activity } := by
  cases o <;> rfl

theorem put_format (o : Option DisplayFormat) :
    Entry.putOption put e (o.map fun f => ⟨"format", Keyword.word f⟩) =
      { e with format := o.or e.format } := by
  cases o with
  | none => rfl
  | some f => cases f <;> rfl

end Keyed

/-- The entries of a healing roll set every field to what it is settled as. -/
theorem foldl_entries (ha : ∀ a ∈ h.average, a.IsStable) : h.entries.foldl put {} = h.settled := by
  rw [entries, Entry.foldl_filterMap_id]
  simp only [List.foldl_cons, List.foldl_nil]
  rw [put_formula, put_healing, put_average _ ha, put_activity, put_format, settled]
  simp only [Option.or_none]

/-- What holds of each entry that a healing roll may have holds of the entries it has. -/
theorem forall_entries {P : Entry → Prop} (formula : ∀ f ∈ Text.filled h.formula, P ⟨"formula", f⟩)
    (healing : ∀ k : Healing, P ⟨"type", Keyword.word k⟩)
    (average : ∀ a ∈ h.average, P ⟨"average", a.toText⟩)
    (activity : ∀ a ∈ Text.filled h.activity, P ⟨"activity", a⟩)
    (format : ∀ f : DisplayFormat, P ⟨"format", Keyword.word f⟩) : ∀ e ∈ h.entries, P e := by
  rw [entries, List.forall_mem_filterMap]
  simp only [List.forall_mem_cons, id]
  exact ⟨Option.forall_mem_map.mpr formula, Option.forall_mem_map.mpr fun k _ => healing _,
    Average.forall_mem_entry? average, Option.forall_mem_map.mpr activity,
    Option.forall_mem_map.mpr fun f _ => format f, List.forall_mem_nil _⟩

theorem isPlain_key : ∀ e ∈ h.entries, Token.IsPlain e.key := by
  apply forall_entries
  all_goals
    intros
    dsimp only
    decide

/-! ### Characters of a canonical text -/

/-- The texts that a healing roll is made of. -/
def texts (h : Heal) : List String :=
  h.formula.toList ++ (h.average.bind Average.formula?).toList ++ h.activity.toList

theorem mem_texts {s : String} :
    s ∈ h.texts ↔ s ∈ h.formula ∨ s ∈ h.average.bind Average.formula? ∨ s ∈ h.activity := by
  simp only [texts, List.mem_append, Option.mem_toList, Option.mem_def, or_assoc]

/-- No entry holds a quote or a closing bracket that the healing roll does not hold. -/
theorem not_mem_entries {x : Char} (hx : x = '"' ∨ x = ']') (ht : ∀ s ∈ h.texts, x ∉ s.toList) :
    ∀ e ∈ h.entries, x ∉ e.value.toList := by
  have hmem := fun s hs => ht s (mem_texts.mpr hs)
  apply forall_entries
  · exact fun f hf => hmem f (.inl (Text.filled_eq_some.mp hf).1)
  · exact fun k => (Keyword.isPlain_healing k).not_mem hx
  · intro a ha
    refine Average.not_mem_toText hx fun s hs => hmem s (.inr (.inl ?_))
    exact Option.bind_eq_some_iff.mpr ⟨a, ha, hs⟩
  · exact fun a ha => hmem a (.inr (.inr (Text.filled_eq_some.mp ha).1))
  · exact fun f => (Keyword.isPlain_format f).not_mem hx

/-- A body with keys says everything, where no value holds a quote. -/
theorem read_keyed (quotes : ∀ s ∈ h.texts, '"' ∉ s.toList) (ha : ∀ a ∈ h.average, a.IsStable) :
    (∀ p ∈ h.entries.map Entry.toToken, Token.IsWhole p) ∧
      read (Text.spaced (h.entries.map Entry.toToken)) = h.settled := by
  have hsound : ∀ e ∈ h.entries, e.IsSound :=
    fun e he => ⟨(isPlain_key e he).1, not_mem_entries (.inl rfl) quotes e he⟩
  refine ⟨Entry.isWhole_map_toToken hsound, ?_⟩
  rw [read_map_toToken hsound, foldl_entries ha]

/-! ### Bodies without keys -/

/-- A word that has no meaning of its own in a body without keys. -/
def IsTerm (s : String) : Prop :=
  Token.IsWord s ∧ healing? s = none ∧ s ≠ "average"

instance (s : String) : Decidable (IsTerm s) :=
  inferInstanceAs (Decidable (Token.IsWord s ∧ healing? s = none ∧ s ≠ "average"))

/-- The first token of a body without keys has none. -/
theorem read_of_split {body t : String} {ts : List String} (hts : Token.split body = t :: ts)
    (ht : Entry.ofToken? t = none) : read body = readPositional (t :: ts) := by
  rw [read, hts]
  exact if_neg (by rw [ht]; exact Bool.false_ne_true)

/-- A body whose first token has no key is read without keys, and so is one without tokens. -/
theorem read_of_bare {body : String} (hb : ∀ t ∈ (Token.split body).head?, '=' ∉ t.toList) :
    read body = readPositional (Token.split body) := by
  cases hsplit : Token.split body with
  | nil =>
    rw [read, hsplit]
    rfl
  | cons t ts =>
    rw [hsplit] at hb
    exact read_of_split hsplit (Entry.ofToken?_eq_none (hb t rfl))

/-- The words of a formula, and behind them the one for temporary hit points if they are meant. -/
def bareTokens (ws : List String) (temporary : Bool) : List String :=
  ws ++ if temporary then ["temp"] else []

/-- What is restored is the one word that names it. -/
theorem filter_bareTokens {ws : List String} (hws : ∀ w ∈ ws, healing? w = none) (temporary : Bool) :
    (bareTokens ws temporary).filter (fun t => (healing? t).isNone) = ws ∧
      ((bareTokens ws temporary).filterMap healing?).getLast? =
        if temporary then some .temporary else none := by
  have hfilter : ws.filter (fun t => (healing? t).isNone) = ws := by
    rw [List.filter_eq_self]
    intro w hw
    rw [hws w hw, Option.isNone_none]
  have hnone : ws.filterMap healing? = [] := List.filterMap_eq_nil_iff.mpr hws
  have htemp : healing? "temp" = some .temporary := by decide
  rw [bareTokens, List.filter_append, List.filterMap_append, hfilter, hnone]
  cases temporary <;> simp [htemp]

/-- An average that is a flag can stand behind terms and the word for temporary hit points. -/
theorem follows_bareTokens {ws : List String} (hws : ∀ w ∈ ws, IsTerm w) (temporary : Bool)
    {a : Option Average} (ha : a.any Average.replacesComputed = false) :
    (Suffix.flag a).Follows (bareTokens ws temporary) := by
  have htemp : ∀ t ∈ (if temporary then ["temp"] else [] : List String),
      Token.IsWord t ∧ t ≠ "average" := by
    cases temporary <;> decide
  exact Suffix.follows_flag ha
    (List.forall_mem_append.mpr ⟨fun w hw => ⟨(hws w hw).1, (hws w hw).2.2⟩, htemp⟩)

/-- What a body without keys tells: the words of a formula, temporary hit points or not, and whether the
average is shown. -/
def bare (ws : List String) (temporary : Bool) (a : Option Average) : Heal :=
  { formula := if ws = [] then none else some (Text.spaced ws)
    healing := if temporary then some .temporary else none
    average := Average.kept a }

/-- A row of words none of which names what is restored is read word by word, with the one for temporary
hit points behind them or without it. -/
theorem read_bare {ws : List String} (hws : ∀ w ∈ ws, healing? w = none) {temporary : Bool}
    {a : Option Average} (ha : a.any Average.replacesComputed = false)
    (hfollows : (Suffix.flag a).Follows (bareTokens ws temporary)) :
    read (Text.spaced (bareTokens ws temporary ++ Average.positional a)) = bare ws temporary a := by
  have hsound := Suffix.isSound_flag ha
  obtain ⟨hfilter, hlast⟩ := filter_bareTokens hws temporary
  have hsplit := Token.split_spaced (hfollows.isWhole hsound)
  have hread := read_of_bare (by rw [hsplit]; exact hfollows.head)
  rw [hsplit, readPositional, hfollows.cut hsound] at hread
  simp only [hfilter, hlast] at hread
  rwa [Suffix.tokens_flag] at hread

/-! ### The whole text -/

/-- The text that stands in front of the average in a body without keys. -/
def front (h : Heal) : String :=
  Text.spaced ((h.formula.getD "" :: h.temporary).filter (· ≠ ""))

/-- A body without keys is the row of tokens in front of the average, and the average. -/
theorem row_front (hkeys : h.needsKeys = false) {ts : List String}
    (hfront : h.front = Text.spaced ts)
    (whole : ∀ t ∈ ts ++ Average.positional h.average, Token.IsWhole t) :
    Text.spaced (h.parts.filter (· ≠ "")) = Text.spaced (ts ++ Average.positional h.average) := by
  have hts : ∀ t ∈ ts, Token.IsWhole t := fun t ht => whole t (List.mem_append_left _ ht)
  have hrest : ∀ t ∈ Average.positional h.average, Token.IsWhole t :=
    fun t ht => whole t (List.mem_append_right _ ht)
  rw [parts_bare hkeys, ← List.append_assoc, List.filter_append, Text.filter_filled,
    Token.filter_whole hrest]
  exact Token.spaced_append (fun t ht => by simpa using (List.mem_filter.mp ht).2)
    (fun t ht => (hts t ht).1) hfront _

/-- The words of a formula and the one for temporary hit points stand in front of the average. -/
theorem front_eq {ws : List String} (hformula : h.formula.getD "" = Text.spaced ws)
    (whole : ∀ w ∈ ws, Token.IsWhole w) :
    h.front = Text.spaced (bareTokens ws (h.healing.any Healing.isTemporary)) := by
  have htemporary : ∀ t ∈ h.temporary, Token.IsWhole t := by
    rw [temporary]
    cases h.healing.any Healing.isTemporary <;> decide
  rw [front, hformula, Token.spaced_filter_cons whole htemporary]
  rfl

/-- No part of the body holds a closing bracket that the healing roll does not hold. -/
theorem closed_parts (ht : ∀ s ∈ h.texts, ']' ∉ s.toList) : ∀ p ∈ h.parts, ']' ∉ p.toList := by
  have hmem := fun s hs => ht s (mem_texts.mpr hs)
  intro p hp
  by_cases hkeys : h.needsKeys = true
  · rw [parts_keyed hkeys] at hp
    obtain ⟨e, he, rfl⟩ := List.mem_map.mp hp
    exact Entry.not_mem_toToken (isPlain_key e he).2.2 (not_mem_entries (.inr rfl) ht e he)
  · rw [parts_bare (by simpa using hkeys)] at hp
    rcases List.mem_append.mp hp with hp | hp
    · exact hmem p (.inl (Text.filled_eq_some.mp (Option.mem_toList.mp hp)).1)
    · rcases List.mem_append.mp hp with hp | hp
      · rw [temporary] at hp
        split at hp
        · rw [List.mem_singleton.mp hp]
          exact (Keyword.isPlain_healing .temporary).2.2
        · cases hp
      · have hsuffix := Suffix.closed_tokens (s := { average := h.average })
          (fun t ht => hmem t (.inr (.inl ht))) (fun t ht => by cases ht)
        exact hsuffix p (List.mem_append_left _ hp)

/-- The canonical text of a healing roll is found as a whole, if no text in it closes the brackets. -/
theorem isReadable (ht : ∀ s ∈ h.texts, ']' ∉ s.toList) : Command.IsReadable .heal (.heal h) :=
  Occurrence.isReadable_of_closed (by decide) rfl (closed_parts ht)

/-- An average behind a body without keys replaces nothing. -/
theorem average_bare (hkeys : h.needsKeys = false) :
    h.average.any Average.replacesComputed = false := by
  rw [needsKeys, Bool.or_eq_false_iff, Bool.or_eq_false_iff] at hkeys
  exact hkeys.1.2

/-- Whether a setting is present that a body without keys has no place for. -/
def hasSettings (h : Heal) : Bool :=
  (Text.filled h.activity).isSome || h.format.isSome || h.average.any Average.replacesComputed

/-- What the canonical text of a healing roll says. Temporary hit points have their long word where
there are settings, and their short one where there are none. -/
def recovered (h : Heal) : Heal :=
  { formula := Text.filled h.formula
    healing := h.healing.map fun
      | .hitPoints => .hitPoints
      | .temporary | .temporaryHitPoints =>
        if h.hasSettings then .temporaryHitPoints else .temporary
    average := Average.kept h.average
    activity := Text.filled h.activity
    format := h.format }

/-- Healing written by key comes back as it is settled. -/
theorem recovered_keyed (hkeys : h.needsKeys = true) : h.recovered = h.settled := by
  have hsettings : (h.hasSettings || h.healing == some .hitPoints) = true := hkeys
  rw [recovered, settled]
  -- temporary hit points need no keys, so that there is a setting that does
  rcases hh : h.healing with _ | _ | _ | _
  · rfl
  · rfl
  all_goals
    rw [hh] at hsettings
    rw [show h.hasSettings = true by simpa using hsettings]
    rfl

/-- Without keys, temporary hit points come back under their short word. -/
theorem recovered_bare (hkeys : h.needsKeys = false) :
    h.recovered =
      { formula := Text.filled h.formula
        healing := if h.healing.any Healing.isTemporary then some .temporary else none
        average := Average.kept h.average } := by
  have hsettings : (h.hasSettings || h.healing == some .hitPoints) = false := hkeys
  rw [Bool.or_eq_false_iff] at hsettings
  obtain ⟨hnone, hhealing⟩ := hsettings
  have hother := hnone
  simp only [hasSettings, Bool.or_eq_false_iff, Option.isSome_eq_false_iff,
    Option.isNone_iff_eq_none] at hother
  rw [recovered, hnone, hother.1.1, hother.1.2]
  rcases hh : h.healing with _ | _ | _ | _
  · rfl
  · rw [hh] at hhealing
    cases hhealing
  all_goals rfl

/-- A healing roll with keys is read from them. -/
theorem first?_of_keys (closed : ∀ s ∈ h.texts, ']' ∉ s.toList)
    (quotes : ∀ s ∈ h.texts, '"' ∉ s.toList) (stable : ∀ a ∈ h.average, a.IsStable)
    (hkeys : h.needsKeys = true) :
    Occurrence.first? (Command.write .heal (.heal h)) =
      some (Occurrence.whole .heal (.heal h.settled) (Command.write .heal (.heal h))) := by
  obtain ⟨hwhole, hread⟩ := read_keyed quotes stable
  rw [← parts_keyed hkeys] at hwhole hread
  exact Occurrence.first?_of_parts (by decide) rfl (closed_parts closed) hwhole
    (congrArg Command.heal hread)

/-- The canonical text of a healing roll says what is recovered of it, where the formula is a row of words
that have no other meaning. -/
theorem first?_recovered (closed : ∀ s ∈ h.texts, ']' ∉ s.toList)
    (quotes : ∀ s ∈ h.texts, '"' ∉ s.toList) (stable : ∀ a ∈ h.average, a.IsStable)
    {ws : List String} (hformula : h.formula.getD "" = Text.spaced ws) (hws : ∀ w ∈ ws, IsTerm w) :
    Occurrence.first? (Command.write .heal (.heal h)) =
      some (Occurrence.whole .heal (.heal h.recovered) (Command.write .heal (.heal h))) := by
  by_cases hkeys : h.needsKeys = true
  · rw [recovered_keyed hkeys]
    exact first?_of_keys closed quotes stable hkeys
  · have hbare : h.needsKeys = false := by simpa using hkeys
    have ha := average_bare hbare
    have hfollows := follows_bareTokens hws (h.healing.any Healing.isTemporary) ha
    have hwhole := hfollows.isWhole (Suffix.isSound_flag ha)
    rw [Suffix.tokens_flag] at hwhole
    have hread := read_bare (fun w hw => (hws w hw).2.1) ha hfollows
    -- an empty formula counts as none, and it alone has no words
    have hwritten : (if ws = [] then none else some (Text.spaced ws)) = Text.filled h.formula := by
      rw [← Text.filled?_getD, hformula, Text.filled?]
      cases ws with
      | nil => rfl
      | cons w ws =>
        have hne := Token.spaced_ne_empty (hws w List.mem_cons_self).1.1 ws
        rw [if_neg (List.cons_ne_nil w ws), if_neg hne]
    rw [bare, hwritten, ← recovered_bare hbare] at hread
    exact Occurrence.first?_of_row (by decide) rfl (closed_parts closed) hwhole
      (row_front hbare (front_eq hformula fun w hw => (hws w hw).1.isWhole) hwhole)
      (congrArg Command.heal hread)

/-- A healing roll whose formula is a row of words that have no other meaning, and whose other texts can
stand between quotes. An average that is a text looks like no number and like no flag. -/
structure IsPlain (h : Heal) : Prop where
  formula : ∀ s ∈ h.formula, ∃ ws, s = Text.spaced ws ∧ ∀ w ∈ ws, IsTerm w ∧ ']' ∉ w.toList
  average : ∀ s, h.average = some (.formula s) →
    Token.IsQuotable s ∧ Numeral.read? s = none ∧ s ≠ "true" ∧ s ≠ "false"
  activity : ∀ s ∈ h.activity, Token.IsQuotable s

/-- An absent formula is a row of no words. -/
theorem IsPlain.exists_words (hp : h.IsPlain) :
    ∃ ws, h.formula.getD "" = Text.spaced ws ∧ ∀ w ∈ ws, IsTerm w := by
  cases hf : h.formula with
  | none => exact ⟨[], rfl, by simp⟩
  | some s =>
    obtain ⟨ws, hs, hws⟩ := hp.formula s hf
    exact ⟨ws, hs, fun w hw => (hws w hw).1⟩

theorem IsPlain.texts (hp : h.IsPlain) : ∀ t ∈ h.texts, Token.IsQuotable t := by
  intro t ht
  rcases mem_texts.mp ht with ht | ht | ht
  · obtain ⟨ws, rfl, hws⟩ := hp.formula t ht
    exact Token.isQuotable_spaced fun w hw => (hws w hw).1.1.isQuotable (hws w hw).2
  · exact (hp.average t (Average.eq_of_mem_formula? ht)).1
  · exact hp.activity t ht

theorem IsPlain.isStable (hp : h.IsPlain) : ∀ a ∈ h.average, a.IsStable := by
  intro a ha
  refine Average.isStable_of_formula fun s hs => ?_
  rw [hs] at ha
  exact (hp.average s ha).2

/-- The canonical text of a healing roll is read as that healing roll: without empty values, without an
average that is not shown, and with one of the two words for temporary hit points. -/
theorem first?_write_heal (hp : h.IsPlain) :
    Occurrence.first? (Command.write .heal (.heal h)) =
      some (Occurrence.whole .heal (.heal h.recovered) (Command.write .heal (.heal h))) := by
  obtain ⟨ws, hformula, hws⟩ := hp.exists_words
  exact first?_recovered (fun t ht => (hp.texts t ht).2) (fun t ht => (hp.texts t ht).1) hp.isStable
    hformula hws

/-- Temporary hit points by their long word, with nothing that needs it. -/
def aid : Heal :=
  { formula := some "2d4 + 2"
    healing := some .temporaryHitPoints
    average := some (.shown true)
    activity := some "" }

/-- Temporary hit points come back under their short word, and the empty activity is gone. -/
theorem first?_write_aid :
    aid.IsPlain ∧
      Occurrence.first? (Command.write .heal (.heal aid)) =
        some (Occurrence.whole .heal
          (.heal { aid with healing := some .temporary, activity := none })
          "[[/heal 2d4 + 2 temp average]]") := by
  have h : aid.IsPlain :=
    { formula := by
        rintro s ⟨⟩
        exact ⟨["2d4", "+", "2"], by decide, by decide⟩
      average := by
        rintro s ⟨⟩
      activity := by decide }
  exact ⟨h, first?_write_heal h⟩

end Heal

end RollMarkup
