import Mathlib
import RollMarkup.Proofs.Command.Damage
import RollMarkup.Proofs.Token.Characters

/-!
# Canonical texts of damage rolls

What was read of a body without closing brackets is written without them (`closed_read`). The
canonical text of a damage roll whose tokens settings can follow (`IsLegible`) is read as a damage roll
with the same canonical text (`isFixed`), even if formulas and types are cut elsewhere.
-/

namespace RollMarkup

namespace Damage

variable {d : Damage}

/-! ### What is read -/

/-- A damage roll that holds no closing bracket, an average that its text gives back, and no roll
without words. -/
structure IsClosed (d : Damage) : Prop where
  formula : ∀ s ∈ d.formula, ']' ∉ s.toList
  types : ∀ s ∈ Selection.values d.types, ']' ∉ s.toList
  average : ∀ a ∈ d.average, a.IsStable ∧ ∀ s ∈ a.formula?, ']' ∉ s.toList
  activity : ∀ s ∈ d.activity, ']' ∉ s.toList
  rolls : ∀ r ∈ d.rolls, (∀ s ∈ r.formula :: Selection.values r.types, ']' ∉ s.toList) ∧
    (r.formula = "" → Selection.filled r.types ≠ [])

/-- No text of a closed damage roll holds a closing bracket. -/
theorem IsClosed.texts (h : d.IsClosed) : ∀ s ∈ d.texts, ']' ∉ s.toList := by
  intro s hs
  rcases mem_texts.mp hs with hs | hs | hs | hs | ⟨r, hr, hs⟩
  · exact h.formula s hs
  · exact h.types s hs
  · obtain ⟨a, ha, hs⟩ := Option.bind_eq_some_iff.mp hs
    exact (h.average a ha).2 s hs
  · exact h.activity s hs
  · exact (h.rolls r hr).1 s (List.mem_cons.mpr hs)

theorem isClosed_empty : IsClosed {} := by
  refine ⟨?_, ?_, ?_, ?_, ?_⟩ <;> rintro _ ⟨⟩

/-- An entry without a closing bracket leaves the damage roll closed. -/
theorem IsClosed.put (hd : d.IsClosed) {e : Entry} (he : ']' ∉ e.value.toList) :
    (d.put e).IsClosed := by
  unfold Damage.put
  split
  next v =>
    refine { hd with formula := ?_ }
    rintro s ⟨⟩
    exact he
  next v =>
    refine { hd with types := ?_ }
    rw [Selection.values_ofList?]
    exact Entry.not_mem_valueList he
  next v => exact { hd with average := Average.lacks_ofText he }
  next v =>
    refine { hd with activity := ?_ }
    rintro s ⟨⟩
    exact he
  next v => exact { hd with }
  next => exact hd

/-- A token without a closing bracket leaves the damage roll closed. -/
theorem IsClosed.add (hd : d.IsClosed) {t : String} (ht : ']' ∉ t.toList) :
    (d.add t).IsClosed := by
  unfold Damage.add
  split
  next e he => exact hd.put (Entry.not_mem_ofToken? ht he)
  · split
    · refine { hd with average := ?_ }
      rintro a ⟨⟩
      exact ⟨Average.isStable_shown true, fun s hs => by cases hs⟩
    · exact hd

/-- What is cut of tokens holds no closing bracket that they do not hold. -/
theorem closed_cutFormula {ts : List String} (ht : ∀ t ∈ ts, ']' ∉ t.toList) :
    (']' ∉ (Text.spaced (cutFormula ts).1).toList) ∧ ∀ t ∈ (cutFormula ts).2, ']' ∉ t.toList := by
  have hcut := cutFormula_fst_append_snd ts
  exact ⟨Token.not_mem_spaced (by decide) fun t h => ht t (hcut ▸ List.mem_append_left _ h),
    fun t h => ht t (hcut ▸ List.mem_append_right _ h)⟩

/-- The types of a roll are the tokens that are cut off behind its formula. -/
theorem filled_rollOf {g : List String} (hg : ∀ t ∈ g, t ≠ "") :
    Selection.filled (rollOf g).types = (cutFormula g).2 := by
  refine Selection.filled_ofList? fun t ht => hg t ?_
  rw [← cutFormula_fst_append_snd g]
  exact List.mem_append_right _ ht

/-- A roll that is read from tokens has a formula or a type. -/
theorem rollOf_ne_empty {g : List String} (hne : g ≠ []) (hg : ∀ t ∈ g, t ≠ "")
    (hformula : (rollOf g).formula = "") : Selection.filled (rollOf g).types ≠ [] := by
  have hcut := cutFormula_fst_append_snd g
  rw [filled_rollOf hg]
  intro htypes
  rw [htypes, List.append_nil] at hcut
  obtain ⟨w, ws, rfl⟩ := List.exists_cons_of_ne_nil hne
  have hspaced : Text.spaced (cutFormula (w :: ws)).1 = "" := by
    simpa only [rollOf] using hformula
  rw [hcut] at hspaced
  exact Token.spaced_ne_empty (hg w List.mem_cons_self) ws hspaced

/-- A damage roll that is read without keys from closed tokens is closed. -/
theorem isClosed_readPositional {body : String} {ts : List String}
    (ht : ∀ t ∈ ts, ']' ∉ t.toList) (hne : ∀ t ∈ ts, t ≠ "") :
    (readPositional body ts).IsClosed := by
  obtain ⟨hmem, hlacks⟩ := Suffix.lacks_cut ht
  have hwords : ∀ t ∈ (Suffix.cut ts).1, ']' ∉ t.toList := fun t h => ht t (hmem t h)
  have haverage : ∀ a ∈ (Suffix.cut ts).2.average,
      a.IsStable ∧ ∀ s ∈ a.formula?, ']' ∉ s.toList := fun a ha =>
    ⟨hlacks.stable a ha, fun s hs => hlacks.average s (Option.bind_eq_some_iff.mpr ⟨a, ha, hs⟩)⟩
  -- a body with the separator is a list of rolls, and any other one is a single formula
  unfold readPositional
  dsimp only
  split
  · refine ⟨?_, ?_, haverage, hlacks.activity, ?_⟩
    · rintro s ⟨⟩
    · rintro s ⟨⟩
    · intro r hr
      obtain ⟨g, hg, rfl⟩ := List.mem_map.mp hr
      obtain ⟨hg, hgne⟩ := List.mem_filter.mp hg
      have hsub : ∀ t ∈ g, t ∈ (Suffix.cut ts).1 := fun t => mem_of_mem_splitOn hg
      have hempty : ∀ t ∈ g, t ≠ "" := fun t h => hne t (hmem t (hsub t h))
      obtain ⟨hformula, htypes⟩ := closed_cutFormula fun t h => hwords t (hsub t h)
      refine ⟨fun s hs => ?_, rollOf_ne_empty (by simpa using hgne) hempty⟩
      rcases List.mem_cons.mp hs with rfl | hs
      · exact hformula
      · rw [rollOf, Selection.values_ofList?] at hs
        exact htypes s hs
  · obtain ⟨hformula, htypes⟩ := closed_cutFormula hwords
    refine ⟨?_, ?_, haverage, hlacks.activity, ?_⟩
    · intro s hs
      obtain ⟨-, rfl⟩ : _ ∧ _ = s := by
        simpa [Text.filled?] using hs
      exact hformula
    · rw [Selection.values_ofList?]
      exact htypes
    · rintro r ⟨⟩

/-- A damage roll that is read from a body without closing brackets holds none. -/
theorem closed_read {body : String} (h : ']' ∉ body.toList) : (read body).IsClosed := by
  have htokens := Token.not_mem_split h
  have hne : ∀ t ∈ Token.split body, t ≠ "" := fun t => Token.ne_empty_of_mem_split
  unfold read
  split
  · exact isClosed_empty
  next t ts hsplit =>
    rw [hsplit] at htokens hne
    split
    · apply List.foldlRecOn (motive := IsClosed) _ _ isClosed_empty
      intro e he u hu
      exact he.add (htokens u hu)
    · exact isClosed_readPositional htokens hne

/-! ### What is written again -/

/-- What a damage roll is settled as is written as the damage roll is, if there is one roll. -/
theorem parts_settled (hrolls : d.rolls = []) (hkeys : d.needsKeys = true) :
    d.settled.parts = d.parts := by
  have hsettled : d.settled =
      { formula := Text.filled d.formula
        types := Selection.ofList? (Selection.filled d.types)
        average := Average.kept d.average
        activity := Text.filled d.activity
        format := d.format } := by
    rw [settled, if_pos hrolls]
  have htypes : Selection.filled d.settled.types = Selection.filled d.types := by
    rw [hsettled]
    exact Selection.filled_ofList? fun t ht => (Selection.mem_filled.mp ht).2
  have haverage : Average.entry? d.settled.average = Average.entry? d.average ∧
      d.settled.average.any Average.replacesComputed =
        d.average.any Average.replacesComputed := by
    rw [hsettled]
    exact ⟨Average.entry?_kept d.average, Average.any_replacesComputed_kept d.average⟩
  have hformula : Text.filled d.settled.formula = Text.filled d.formula := by
    rw [hsettled, Text.filled_filled]
  have hactivity : Text.filled d.settled.activity = Text.filled d.activity := by
    rw [hsettled, Text.filled_filled]
  have hformat : d.settled.format = d.format := by rw [hsettled]
  have hrolls' : d.settled.rolls = [] := by rw [hsettled]
  have hkeys' : d.settled.needsKeys = true := by
    rw [needsKeys, haverage.2, hactivity, hformat]
    exact hkeys
  rw [parts_keyed hrolls' hkeys', parts_keyed hrolls hkeys, entries, htypes, haverage.1, hformula,
    hactivity, hformat]
  rfl

/-- Whether the texts of a damage roll can stand where its canonical text has them. In a body with keys the
types stand between slashes. In one without, the text in front of the settings is a row of tokens that they
can follow. Where the separator is seen there are tokens on either side of each ampersand, and elsewhere no
setting needs a key. -/
def IsLegible (d : Damage) : Prop :=
  if d.rolls = [] ∧ d.needsKeys = true then ∀ t ∈ Selection.filled d.types, '/' ∉ t.toList
  else ∃ ts, d.front = Text.spaced ts ∧ d.suffix.Follows ts ∧
    if hasSeveral (Text.spaced (ts ++ d.suffix.tokens)).toList = true then
      ∀ g ∈ ts.splitOn "&", g ≠ []
    else d.needsKeys = false

/-- The text of a roll that is read is the row of words it is read from. -/
theorem text_rollOf {g : List String} (hg : ∀ t ∈ g, Token.IsWhole t) :
    (rollOf g).text = Text.spaced g := by
  have hcut := cutFormula_fst_append_snd g
  have hwords : ∀ w ∈ (cutFormula g).1, Token.IsWhole w :=
    fun w hw => hg w (hcut ▸ List.mem_append_left _ hw)
  have htypes : ∀ t ∈ (cutFormula g).2, Token.IsWhole t :=
    fun t ht => hg t (hcut ▸ List.mem_append_right _ ht)
  rw [DamageRoll.text, filled_rollOf fun t ht => (hg t ht).1]
  show Text.spaced ((Text.spaced (cutFormula g).1 :: (cutFormula g).2).filter (· ≠ "")) = _
  rw [Token.spaced_filter_cons hwords htypes, hcut]

/-- The settings of a damage roll without quotes are given back by their tokens. -/
theorem suffix_isSound (quotes : ∀ s ∈ d.texts, '"' ∉ s.toList) (stable : ∀ a ∈ d.average, a.IsStable) :
    d.suffix.IsSound := by
  have hmem := fun s hs => quotes s (mem_texts.mpr hs)
  exact
    { stable := stable
      average := fun a ha => Average.not_mem_toText (.inl rfl) fun s hs =>
        hmem s (.inr (.inr (.inl (Option.bind_eq_some_iff.mpr ⟨a, ha, hs⟩))))
      activity := fun v hv =>
        hmem v (.inr (.inr (.inr (.inl (Text.filled_eq_some.mp hv).1)))) }

section Row

variable {ts : List String} (hfollows : d.suffix.Follows ts) (hsound : d.suffix.IsSound)

include hfollows hsound

/-- A damage roll with the settings of another one, and the same text in front of them, is written as the
same row. -/
theorem row_eq {e : Damage} (hkeys : e.rolls = [] → e.needsKeys = false)
    (hfront : e.front = Text.spaced ts) (haverage : e.average = Average.kept d.average)
    (hformat : e.format = d.format) (hactivity : e.activity = Text.filled d.activity) :
    Text.spaced (e.parts.filter (· ≠ "")) = Text.spaced (ts ++ d.suffix.tokens) := by
  have htokens : e.suffix.tokens = d.suffix.tokens := by
    rw [suffix, haverage, hformat, hactivity, Text.filled_filled, Suffix.tokens, Average.positional_kept]
    rfl
  have hwhole := hfollows.isWhole hsound
  rw [← htokens] at hwhole ⊢
  exact row_front hkeys hfront hwhole

/-- Several rolls that were read of a row are written as that row, if no ampersand stands beside another
one or at an end. -/
theorem row_of_several (hne : ∀ g ∈ ts.splitOn "&", g ≠ []) :
    Text.spaced ((several ts d.suffix).parts.filter (· ≠ "")) =
      Text.spaced (ts ++ d.suffix.tokens) := by
  have hrolls : (several ts d.suffix).rolls = (ts.splitOn "&").map rollOf := by
    show ((ts.splitOn "&").filter (· ≠ [])).map rollOf = _
    rw [List.filter_eq_self.mpr fun g hg => decide_eq_true (hne g hg)]
  have hsome : (several ts d.suffix).rolls ≠ [] := by
    rw [hrolls]
    simp
  -- formula and types may be cut elsewhere in each roll, but each roll keeps its words
  have htext : (several ts d.suffix).rolls.map DamageRoll.text =
      (ts.splitOn "&").map Text.spaced := by
    rw [hrolls, List.map_map]
    exact List.map_congr_left fun g hg =>
      text_rollOf fun t ht => hfollows.whole t (mem_of_mem_splitOn hg ht)
  refine row_eq hfollows hsound (fun h => absurd h hsome) ?_ rfl rfl rfl
  have hjoin : ["&"].intercalate (ts.splitOn "&") = ts := List.intercalate_splitOn "&"
  rw [front, if_neg hsome, htext, intercalate_spaced hne, hjoin]

/-- A single roll that was read of a row is written as that row, if no setting needs a key. -/
theorem row_of_lone (hkeys : d.needsKeys = false) :
    Text.spaced ((lone ts d.suffix).parts.filter (· ≠ "")) =
      Text.spaced (ts ++ d.suffix.tokens) := by
  have hkeys' : (lone ts d.suffix).needsKeys = false := by
    show ((Text.filled (Text.filled d.activity)).isSome || d.format.isSome ||
      (Average.kept d.average).any Average.replacesComputed) = false
    rw [Text.filled_filled, Average.any_replacesComputed_kept]
    exact hkeys
  refine row_eq hfollows hsound (fun _ => hkeys') ?_ rfl rfl rfl
  -- formula and types may be cut elsewhere, but they make up the same row
  have hformula : (lone ts d.suffix).formula.getD "" = (rollOf ts).formula := by
    show (Text.filled? (Text.spaced (cutFormula ts).1)).getD "" = Text.spaced (cutFormula ts).1
    unfold Text.filled?
    split
    next he => rw [he]; rfl
    · rfl
  have htypes : (lone ts d.suffix).types = (rollOf ts).types := rfl
  have hrolls : (lone ts d.suffix).rolls = [] := rfl
  rw [front, if_pos hrolls, hformula, htypes]
  exact text_rollOf hfollows.whole

end Row

/-- The canonical text of a damage roll without keys is fixed, where what is read of its row is written as
that row. -/
theorem isFixed_row (hd : d.IsClosed) (hsound : d.suffix.IsSound)
    (hkeys : d.rolls = [] → d.needsKeys = false) {ts : List String}
    (hfront : d.front = Text.spaced ts) (hfollows : d.suffix.Follows ts)
    (hseen : if hasSeveral (Text.spaced (ts ++ d.suffix.tokens)).toList = true then
        ∀ g ∈ ts.splitOn "&", g ≠ []
      else d.needsKeys = false) :
    Command.IsFixed .damage (.damage d) := by
  have hwhole := hfollows.isWhole hsound
  have hread := read_follows hsound hfollows
  have hrow := row_front hkeys hfront hwhole
  split at hseen
  next hseveral =>
    rw [if_pos hseveral] at hread
    exact Occurrence.isFixed_of_row (by decide) rfl (closed_parts hd.texts) hwhole hrow
      (congrArg Command.damage hread) rfl (row_of_several hfollows hsound hseen)
  next hone =>
    rw [if_neg hone] at hread
    exact Occurrence.isFixed_of_row (by decide) rfl (closed_parts hd.texts) hwhole hrow
      (congrArg Command.damage hread) rfl (row_of_lone hfollows hsound hseen)

/-- The canonical text of a legible damage roll is fixed. -/
theorem isFixed (hd : d.IsClosed) (quotes : ∀ s ∈ d.texts, '"' ∉ s.toList) (h : d.IsLegible) :
    Command.IsFixed .damage (.damage d) := by
  have stable : ∀ a ∈ d.average, a.IsStable := fun a ha => (hd.average a ha).1
  unfold IsLegible at h
  split at h
  next hkeyed =>
    exact ⟨_, first?_of_keys hd.texts quotes stable hkeyed.1 hkeyed.2 h,
      congrArg (bracketed "damage") (parts_settled hkeyed.1 hkeyed.2)⟩
  next hbare =>
    obtain ⟨ts, hfront, hfollows, hseen⟩ := h
    exact isFixed_row hd (suffix_isSound quotes stable)
      (fun hrolls => by simpa [hrolls] using hbare) hfront hfollows hseen

end Damage

end RollMarkup
