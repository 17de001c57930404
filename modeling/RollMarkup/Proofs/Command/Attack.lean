import Mathlib
import RollMarkup.Proofs.Command.Attack.Body
import RollMarkup.Proofs.Document.Enclosed

/-!
# Attacks are read as they were written

The canonical text of an attack is found in a document as that attack (`first?_write_attack`), where the
words of its formula have no other meaning (`IsPlain`). Beside a mode and nothing else, a formula comes
back without its plus sign.
-/

namespace RollMarkup

namespace Attack

variable {a : Attack}

/-! ### The parts of the body -/

/-- Whether nothing is present but a formula and a mode. -/
def isBare (a : Attack) : Bool :=
  (Text.filled a.activity).isNone && a.format.isNone && a.edition.isNone

/-- Beside anything else, a formula and a mode are written by key. -/
theorem parts_keyed {f : String} (hf : a.writtenFormula = some f) (h : a.isBare = false) :
    a.parts = a.keyedParts := by
  rw [parts, hf]
  unfold isBare at h
  rcases hact : Text.filled a.activity with _ | v <;>
    rcases hformat : a.format with _ | g <;>
      rcases hed : a.edition with _ | e <;>
        rw [hact, hformat, hed] at h
  · cases h
  all_goals rcases Text.filled a.mode with _ | m <;> rfl

/-- Beside a mode alone, a formula is written without its plus sign. -/
theorem parts_mode {f m : String} (hf : a.writtenFormula = some f) (h : a.isBare = true)
    (hm : Text.filled a.mode = some m) : a.parts = [withoutPlus f, m] := by
  simp only [isBare, Bool.and_eq_true, Option.isNone_iff_eq_none] at h
  obtain ⟨⟨hact, hformat⟩, hed⟩ := h
  rw [parts, hf, hm, hact, hformat, hed]

/-- A formula alone is written without a key if it has a sign, and by key if it has none. -/
theorem parts_lone {f : String} (hf : a.writtenFormula = some f) (h : a.isBare = true)
    (hm : Text.filled a.mode = none) : a.parts = if hasSign f then [f] else a.keyedParts := by
  simp only [isBare, Bool.and_eq_true, Option.isNone_iff_eq_none] at h
  obtain ⟨⟨hact, hformat⟩, hed⟩ := h
  rw [parts, hf, hm, hact, hformat, hed]

/-- Where nothing else is present, what is settled is the formula and the mode. -/
theorem settled_bare (h : a.isBare = true) :
    a.settled =
      { formula := a.writtenFormula.map Quantity.ofText, mode := Text.filled a.mode } := by
  simp only [isBare, Bool.and_eq_true, Option.isNone_iff_eq_none] at h
  obtain ⟨⟨hact, hformat⟩, hed⟩ := h
  rw [settled, hact, hformat, hed]

/-- Without a formula, a format alone is written without a key. -/
theorem parts_without_formula (hf : a.writtenFormula = none) :
    (∃ f, a.settled = { format := some f } ∧ a.parts = [Keyword.word f]) ∨
      a.parts = a.keyedParts := by
  rw [parts, hf]
  rcases hact : Text.filled a.activity with _ | v <;> rcases hm : Text.filled a.mode with _ | m <;>
    rcases hformat : a.format with _ | g <;> rcases hed : a.edition with _ | e
  · right
    rw [keyedParts, hf, hact, hm, hformat, hed]
    rfl
  · exact .inr rfl
  · left
    refine ⟨g, ?_, rfl⟩
    rw [settled, hf, hact, hm, hformat, hed]
    rfl
  all_goals exact .inr rfl

theorem closed_keyedParts (h : ∀ s ∈ a.texts, ']' ∉ s.toList) :
    ∀ p ∈ a.keyedParts, ']' ∉ p.toList := by
  have hmem := fun s hs => h s (mem_texts.mpr hs)
  have hentry : ∀ {k v : String}, ']' ∉ k.toList → ']' ∉ v.toList →
      ']' ∉ (Entry.mk k v).toToken.toList := fun hk hv => Entry.not_mem_toToken hk hv
  refine forall_keyedParts (fun f hf => ?_) (fun v hv => hentry (by decide) ?_)
    (fun v hv => hentry (by decide) ?_) (fun f => hentry (by decide) ?_)
    fun e => hentry (by decide) ?_
  · have hclosed := not_mem_writtenFormula (.inr rfl) h f hf
    split
    · exact Token.not_mem_ofValue hclosed
    · exact hentry (by decide) hclosed
  · exact hmem v (.inr (.inl (Text.filled_eq_some.mp hv).1))
  · exact hmem v (.inr (.inr (Text.filled_eq_some.mp hv).1))
  · exact (Keyword.isPlain_format f).2.2
  · exact (Keyword.isPlain_edition e).2.2

/-- Taking the plus sign off adds no character. -/
theorem mem_withoutPlus {f : String} {c : Char} (h : c ∈ (withoutPlus f).toList) :
    c ∈ f.toList := by
  unfold withoutPlus at h
  split at h
  next cs hcs =>
    rw [hcs]
    exact List.mem_cons_of_mem _ (by simpa using h)
  · exact h

/-- No part of the body holds a closing bracket that the attack does not hold. -/
theorem closed_parts (h : ∀ s ∈ a.texts, ']' ∉ s.toList) : ∀ p ∈ a.parts, ']' ∉ p.toList := by
  have hkeyed := closed_keyedParts h
  have hformula := not_mem_writtenFormula (.inr rfl) h
  cases hf : a.writtenFormula with
  | none =>
    rcases parts_without_formula hf with ⟨f, -, hp⟩ | hp
    · intro p hmem
      rw [hp, List.mem_singleton] at hmem
      rw [hmem]
      exact (Keyword.isPlain_format f).2.2
    · rwa [hp]
  | some f =>
    have hclosed := hformula f hf
    by_cases hbare : a.isBare = true
    · cases hm : Text.filled a.mode with
      | none =>
        rw [parts_lone hf hbare hm]
        split
        · intro p hmem
          rwa [List.mem_singleton.mp hmem]
        · exact hkeyed
      | some m =>
        rw [parts_mode hf hbare hm]
        intro p hmem
        rcases List.mem_pair.mp hmem with rfl | rfl
        · exact fun hc => hclosed (mem_withoutPlus hc)
        · exact h p (mem_texts.mpr (.inr (.inr (Text.filled_eq_some.mp hm).1)))
    · rwa [parts_keyed hf (by simpa using hbare)]

/-! ### The whole text -/

/-- The canonical text of an attack is found as a whole, if no text in it closes the brackets. -/
theorem isReadable (h : ∀ s ∈ a.texts, ']' ∉ s.toList) : Command.IsReadable .attack (.attack a) :=
  Occurrence.isReadable_of_closed (by decide) rfl (closed_parts h)

/-- A formula that is read word by word. -/
def HasTerms (formula : String) : Prop :=
  formula ≠ "" ∧ ∃ ws, formula = Text.spaced ws ∧ ∀ w ∈ ws, IsTerm w

section Found

variable (closed : ∀ s ∈ a.texts, ']' ∉ s.toList)

include closed

/-- An attack written by key is read back as it is settled. -/
theorem first?_keyed (quotes : ∀ s ∈ a.texts, '"' ∉ s.toList)
    (heq : ∀ f ∈ a.writtenFormula, hasSign f = true → '=' ∉ f.toList)
    (hparts : a.parts = a.keyedParts) :
    Occurrence.first? (Command.write .attack (.attack a)) =
      some (Occurrence.whole .attack (.attack a.settled) (Command.write .attack (.attack a))) := by
  have hwhole := isWhole_keyedParts quotes
  have hread := read_keyed quotes heq
  rw [← hparts] at hwhole hread
  exact Occurrence.first?_of_parts (by decide) rfl (closed_parts closed) hwhole
    (congrArg Command.attack hread)

/-- Written without a key, a format alone is read back as the format. -/
theorem first?_format {f : DisplayFormat} (hparts : a.parts = [Keyword.word f]) :
    Occurrence.first? (Command.write .attack (.attack a)) =
      some (Occurrence.whole .attack (.attack { format := some f })
        (Command.write .attack (.attack a))) := by
  have hwhole : ∀ t ∈ [Keyword.word f], Token.IsWhole t := by
    intro t ht
    rw [List.mem_singleton.mp ht]
    exact (Keyword.isPlain_format f).1.isWhole
  have hread := read_format f
  rw [← hparts] at hwhole hread
  exact Occurrence.first?_of_parts (by decide) rfl (closed_parts closed) hwhole
    (congrArg Command.attack hread)

/-- The words of a formula, with a mode behind them or not, are read as that formula and mode. -/
theorem first?_words {f : String} (hf : HasTerms f) (mode : Option String)
    (hm : ∀ m ∈ mode, m ∈ modes) (hparts : a.parts = f :: mode.toList) :
    Occurrence.first? (Command.write .attack (.attack a)) =
      some (Occurrence.whole .attack (.attack { formula := some (.ofText f), mode })
        (Command.write .attack (.attack a))) := by
  obtain ⟨hne, ws, hwords, hws⟩ := hf
  have hnil : ws ≠ [] := by
    rintro rfl
    exact hne hwords
  obtain ⟨hwhole, hread⟩ := read_words hws hnil mode hm
  have hrow : Text.spaced (a.parts.filter (· ≠ "")) = Text.spaced (ws ++ mode.toList) := by
    rw [hparts, hwords]
    exact Token.spaced_filter_cons (fun w hw => hwhole w (List.mem_append_left _ hw))
      fun t ht => hwhole t (List.mem_append_right _ ht)
  -- the formula is one part of the body, but it is read as several tokens
  rw [← hwords] at hread
  exact Occurrence.first?_of_row (by decide) rfl (closed_parts closed) hwhole hrow
    (congrArg Command.attack hread)

end Found

/-- Whether a formula and a mode are present, and nothing else. -/
def isModal (a : Attack) : Bool :=
  a.isBare && a.writtenFormula.isSome && (Text.filled a.mode).isSome

/-- The formula that the canonical text of an attack says: a number as it is, and a text that is read
once more. Beside a mode and nothing else the text has lost a plus sign. -/
def recoveredFormula (a : Attack) : Option Quantity :=
  match a.formula with
  | none => none
  | some (.number n) => some (.number n)
  | some (.formula s) => some (.ofText (if a.isModal then withoutPlus s else s))

/-- What the canonical text of an attack says: its formula as it is recovered, and no empty values. -/
def recovered (a : Attack) : Attack :=
  { formula := a.recoveredFormula
    activity := Text.filled a.activity
    mode := Text.filled a.mode
    format := a.format
    edition := a.edition }

/-- An attack whose formula is a row of words that are read as a formula, also without a plus sign in
front of them, and whose other texts can stand between quotes. A mode is a known one where it stands
beside a formula and nothing else. -/
structure IsPlain (a : Attack) : Prop where
  formula : ∀ s, a.formula = some (.formula s) → ∃ w ws, s = Text.spaced (w :: ws) ∧
    (∀ v ∈ w :: ws, IsTerm v ∧ ']' ∉ v.toList) ∧
      w ≠ "+" ∧ (∀ f : DisplayFormat, w ≠ "+" ++ Keyword.word f) ∧ ∀ m ∈ modes, w ≠ "+" ++ m
  activity : ∀ s ∈ a.activity, Token.IsQuotable s
  mode : ∀ s ∈ a.mode, Token.IsQuotable s
  known : a.isModal = true → ∀ m ∈ a.mode, m ∈ modes

theorem IsPlain.texts (h : a.IsPlain) : ∀ t ∈ a.texts, Token.IsQuotable t := by
  intro t ht
  rcases mem_texts.mp ht with ht | ht | ht
  · obtain ⟨w, ws, rfl, hws, -⟩ := h.formula t (Quantity.eq_of_mem_formula? ht)
    exact Token.isQuotable_spaced fun v hv => (hws v hv).1.1.isQuotable (hws v hv).2
  · exact h.activity t ht
  · exact h.mode t ht

/-! ### Formulas without a plus sign -/

theorem withoutPlus_writeSigned (n : Int64) :
    withoutPlus (Numeral.writeSigned n) = Numeral.write n := by
  unfold Numeral.writeSigned
  split
  · exact withoutPlus_append _
  · refine withoutPlus_of_no_plus fun cs hcs => ?_
    have hplus : '+' ∈ (Numeral.write n).toList := by simp [hcs]
    rcases Numeral.mem_write hplus with hd | hd <;> exact absurd hd (by decide)

/-- A number is no format and no mode. -/
theorem isTerm_of_read? {s : String} {n : Int64} (hword : Token.IsWord s)
    (h : Numeral.read? s = some n) : IsTerm s := by
  have hformat : (Keyword.ofWord? s : Option DisplayFormat) = none := by
    cases hf : (Keyword.ofWord? s : Option DisplayFormat) with
    | none => rfl
    | some f =>
      have hnone : Numeral.read? (Keyword.word f) = none := by cases f <;> decide
      rw [Keyword.word_of_ofWord? hf, h] at hnone
      cases hnone
  have hmode : s ∉ modes := by
    have hnone : ∀ m ∈ modes, Numeral.read? m = none := by decide
    intro hm
    rw [hnone s hm] at h
    cases h
  exact ⟨hword, hformat, hmode⟩

/-- A single term is a row of terms. -/
theorem hasTerms_singleton {s : String} (h : IsTerm s) : HasTerms s :=
  ⟨h.1.1, [s], String.intercalate_singleton.symm, by simpa using h⟩

theorem hasTerms_spaced {w : String} {ws : List String} (h : ∀ v ∈ w :: ws, IsTerm v) :
    HasTerms (Text.spaced (w :: ws)) :=
  ⟨Token.spaced_ne_empty (h w List.mem_cons_self).1.1 ws, w :: ws, rfl, h⟩

/-- A row of words without the plus sign in front of it is a row of words again, if what is left of the
first word is one. -/
theorem hasTerms_withoutPlus {w : String} {ws : List String} (h : ∀ v ∈ w :: ws, IsTerm v)
    (hplus : w ≠ "+") (hformat : ∀ f : DisplayFormat, w ≠ "+" ++ Keyword.word f)
    (hmode : ∀ m ∈ modes, w ≠ "+" ++ m) : HasTerms (withoutPlus (Text.spaced (w :: ws))) := by
  obtain ⟨⟨hne, hchars⟩, -, -⟩ := h w List.mem_cons_self
  obtain ⟨c, v, rfl⟩ : ∃ c v, w = String.singleton c ++ v := by
    cases hw : w.toList with
    | nil => exact absurd hw (Token.toList_ne_nil hne)
    | cons c cs =>
      refine ⟨c, String.ofList cs, ?_⟩
      rw [← String.toList_inj, hw]
      simp
  -- the sign is the first character of the first word; without it the rest of the row is the same
  have hrow : Text.spaced ((String.singleton c ++ v) :: ws) =
      String.singleton c ++ Text.spaced (v :: ws) := String.intercalate_cons_append
  by_cases hc : c = '+'
  · subst hc
    have hv : IsTerm v := by
      refine ⟨⟨?_, fun d hd => hchars d (by simp [hd])⟩, ?_, fun hm => hmode v hm rfl⟩
      · rintro rfl
        exact hplus (by decide)
      · cases hf : (Keyword.ofWord? v : Option DisplayFormat) with
        | none => rfl
        | some f =>
          have hword := Keyword.word_of_ofWord? hf
          exact absurd (by rw [hword]; rfl) (hformat f)
    rw [hrow]
    show HasTerms (withoutPlus ("+" ++ Text.spaced (v :: ws)))
    rw [withoutPlus_append]
    refine hasTerms_spaced fun u hu => ?_
    rcases List.mem_cons.mp hu with rfl | hu
    · exact hv
    · exact h u (List.mem_cons_of_mem _ hu)
  · rw [withoutPlus_of_no_plus]
    · exact hasTerms_spaced h
    · intro cs hcs
      rw [hrow] at hcs
      have hhead : c :: (Text.spaced (v :: ws)).toList = '+' :: cs := by simpa using hcs
      exact hc (List.cons.inj hhead).1

/-- The formula of a plain attack is read word by word, and so it is without a plus sign. -/
theorem IsPlain.hasTerms (h : a.IsPlain) {f : String} (hf : a.writtenFormula = some f) :
    HasTerms f ∧ HasTerms (withoutPlus f) := by
  obtain ⟨hf, -⟩ := Text.filled_eq_some.mp hf
  obtain ⟨q, hq, rfl⟩ := Option.map_eq_some_iff.mp hf
  cases q with
  | number n =>
    show HasTerms (Numeral.writeSigned n) ∧ HasTerms (withoutPlus (Numeral.writeSigned n))
    rw [withoutPlus_writeSigned]
    exact ⟨hasTerms_singleton (isTerm_of_read? (Numeral.isWord_writeSigned n)
        (Numeral.read?_writeSigned n)),
      hasTerms_singleton (isTerm_of_read? (Numeral.isPlain_write n).1 (Numeral.read?_write n))⟩
  | formula s =>
    obtain ⟨w, ws, rfl, hws, hplus, hformat, hmode⟩ := h.formula s hq
    have hterms : ∀ v ∈ w :: ws, IsTerm v := fun v hv => (hws v hv).1
    exact ⟨hasTerms_spaced hterms, hasTerms_withoutPlus hterms hplus hformat hmode⟩

/-- A row of terms holds no equals sign, so that it is no entry. -/
theorem HasTerms.not_mem_equals {f : String} (h : HasTerms f) : '=' ∉ f.toList := by
  obtain ⟨-, ws, rfl, hws⟩ := h
  exact Token.not_mem_spaced (by decide) fun w hw hc => ((hws w hw).1.2 _ hc).2.1 rfl

/-- What is recovered of a plain attack is what its formula is read as where it is written. -/
theorem IsPlain.recovered_eq (h : a.IsPlain) :
    a.recovered = { a.settled with
      formula := a.writtenFormula.map fun f =>
        Quantity.ofText (if a.isModal then withoutPlus f else f) } := by
  have hformula : a.recoveredFormula = a.writtenFormula.map fun f =>
      Quantity.ofText (if a.isModal then withoutPlus f else f) := by
    rw [recoveredFormula]
    rcases hq : a.formula with _ | n | s
    · rw [writtenFormula, hq]
      rfl
    · have hwritten : a.writtenFormula = some (Numeral.writeSigned n) := by
        rw [writtenFormula, hq]
        exact Text.filled_eq_some.mpr ⟨rfl, (Numeral.isWord_writeSigned n).1⟩
      show some (Quantity.number n) = _
      rw [hwritten, Option.map_some, withoutPlus_writeSigned]
      -- with its plus sign and without it, the text is that of the number
      split
      · rw [Quantity.ofText_write]
      · exact congrArg some (Quantity.isStable_number n).ofText_toSignedText.symm
    · obtain ⟨w, ws, rfl, hws, -⟩ := h.formula s hq
      have hwritten : a.writtenFormula = some (Text.spaced (w :: ws)) := by
        rw [writtenFormula, hq]
        exact Text.filled_eq_some.mpr
          ⟨rfl, Token.spaced_ne_empty (hws w List.mem_cons_self).1.1.1 ws⟩
      rw [hwritten, Option.map_some]
  rw [recovered, hformula]
  rfl

/-- The canonical text of an attack is read as that attack: without empty values, and with a formula that
is a number if it looks like one. -/
theorem first?_write_attack (h : a.IsPlain) :
    Occurrence.first? (Command.write .attack (.attack a)) =
      some (Occurrence.whole .attack (.attack a.recovered) (Command.write .attack (.attack a))) := by
  have closed := fun t ht => (h.texts t ht).2
  -- with keys the formula keeps its sign, and the mode may be any text
  have keyed (hmodal : a.isModal = false) (hparts : a.parts = a.keyedParts) :
      Occurrence.first? (Command.write .attack (.attack a)) =
        some (Occurrence.whole .attack (.attack a.recovered)
          (Command.write .attack (.attack a))) := by
    have hsettled : a.recovered = a.settled := by
      rw [h.recovered_eq, hmodal]
      rfl
    rw [hsettled]
    exact first?_keyed closed (fun t ht => (h.texts t ht).1)
      (fun f hf _ => (h.hasTerms hf).1.not_mem_equals) hparts
  cases hf : a.writtenFormula with
  | none =>
    have hmodal : a.isModal = false := by rw [isModal, hf, Option.isSome_none, Bool.and_false]; rfl
    obtain ⟨f, hsettled, hparts⟩ | hparts := parts_without_formula hf
    · have hformat : a.recovered = { format := some f } := by
        rw [h.recovered_eq, hf, hsettled]
        rfl
      rw [hformat]
      exact first?_format closed hparts
    · exact keyed hmodal hparts
  | some f =>
    by_cases hbare : a.isBare = true
    · have hsettled := settled_bare hbare
      cases hm : Text.filled a.mode with
      | none =>
        have hmodal : a.isModal = false := by
          rw [isModal, hm, Option.isSome_none, Bool.and_false]
        have hparts := parts_lone hf hbare hm
        by_cases hsign : hasSign f = true
        · rw [if_pos hsign] at hparts
          have hlone : a.recovered = { formula := some (.ofText f), mode := none } := by
            rw [h.recovered_eq, hmodal, hf, hsettled, hm]
            rfl
          rw [hlone]
          exact first?_words closed (h.hasTerms hf).1 none (by simp) hparts
        · rw [if_neg hsign] at hparts
          exact keyed hmodal hparts
      | some m =>
        have hmodal : a.isModal = true := by
          rw [isModal, hbare, hf, hm]
          rfl
        -- without keys an unknown mode would be one more word of the formula
        have hmode : m ∈ modes := h.known hmodal m (Text.filled_eq_some.mp hm).1
        have hpair : a.recovered = { formula := some (.ofText (withoutPlus f)), mode := some m } := by
          rw [h.recovered_eq, hmodal, hf, hsettled, hm]
          rfl
        rw [hpair]
        exact first?_words closed (h.hasTerms hf).2 (some m) (by simpa using hmode)
          (parts_mode hf hbare hm)
    · have hmodal : a.isModal = false := by
        rw [isModal, Bool.eq_false_iff.mpr hbare]
        rfl
      exact keyed hmodal (parts_keyed hf (Bool.eq_false_iff.mpr hbare))

/-- A thrown weapon whose formula begins with a plus sign, which is lost beside the mode. -/
def thrown : Attack :=
  { formula := some (.formula "+1d4 + @mod"), mode := some "thrown" }

/-- A formula beside a mode comes back without the plus sign in front of it. -/
theorem first?_write_thrown :
    thrown.IsPlain ∧
      Occurrence.first? (Command.write .attack (.attack thrown)) =
        some (Occurrence.whole .attack
          (.attack { formula := some (.formula "1d4 + @mod"), mode := some "thrown" })
          "[[/attack 1d4 + @mod thrown]]") := by
  have h : thrown.IsPlain :=
    { formula := by
        rintro s ⟨⟩
        exact ⟨"+1d4", ["+", "@mod"], by decide, by decide, by decide,
          fun f => by cases f <;> decide, by decide⟩
      activity := by decide
      mode := by decide
      known := by decide }
  exact ⟨h, first?_write_attack h⟩

end Attack

end RollMarkup
