import Mathlib
import RollMarkup.Proofs.Canonical.Attack

/-!
# Canonical texts of attacks with a text for a formula

A formula that is a text is written as it is, and a number with its sign. A text that is an integer is
read as that number, so that the canonical text shows a sign where there was none
(`canonical_formula_five`). Apart from that the canonical text of an attack is fixed
(`first?_write_regular`).
-/

namespace RollMarkup

namespace Attack

variable {a : Attack}

/-- An attack whose formula is a number or a row of words without a sign in front, whose mode is a known
one, and whose activity can stand between quotes. -/
structure IsRegular (a : Attack) : Prop where
  formula : ∀ s, a.formula = some (.formula s) →
    HasTerms s ∧ ']' ∉ s.toList ∧ hasSign s = false
  mode : ∀ m ∈ a.mode, m ∈ modes
  activity : ∀ v ∈ a.activity, Token.IsQuotable v

/-- Whether no text of the formula is taken for a number that is written otherwise: a number shows its
sign, except beside a mode and nothing else. -/
def ShowsFormula (a : Attack) : Prop :=
  ∀ s n, a.formula = some (.formula s) → Numeral.read? s = some n →
    a.isModal = true ∧ s = Numeral.write n

/-- A mode can stand between quotes. -/
theorem isQuotable_mode {m : String} (h : m ∈ modes) : Token.IsQuotable m := by
  have hall : ∀ m ∈ modes, Token.IsQuotable m := by decide
  exact hall m h

/-- A row of terms holds no quote. -/
theorem no_quote_of_hasTerms {s : String} (h : HasTerms s) : '"' ∉ s.toList := by
  obtain ⟨-, ws, rfl, hws⟩ := h
  exact Token.not_mem_spaced (by decide) fun w hw hquote => ((hws w hw).1.2 _ hquote).2.2 rfl

/-- Without a sign there is no plus sign to lose. -/
theorem withoutPlus_of_hasSign {s : String} (h : hasSign s = false) : withoutPlus s = s := by
  refine withoutPlus_of_no_plus fun cs hcs => ?_
  rw [hasSign_iff.mpr ⟨cs, .inl hcs⟩] at h
  cases h

/-- A number that is written with its sign has one. -/
theorem hasSign_writeSigned (n : Int64) : hasSign (Numeral.writeSigned n) = true := by
  rw [hasSign_iff]
  by_cases hn : 0 ≤ n
  · exact ⟨_, .inl (by rw [Numeral.toList_writeSigned, if_pos hn])⟩
  · have hneg : ¬ 0 ≤ n.toInt := fun h => hn (Int64.le_iff_toInt_le.mpr h)
    exact ⟨_, .inr (by rw [Numeral.toList_writeSigned, if_neg hn, Numeral.toList_write, if_neg hneg])⟩

/-- Beside a mode a number has no sign but that of a negative one, which it keeps. -/
theorem hasSign_write {n : Int64} (h : hasSign (Numeral.write n) = true) :
    Numeral.write n = Numeral.writeSigned n := by
  by_cases hn : 0 ≤ n
  · obtain ⟨c, cs, hcs, hminus, hplus⟩ := Numeral.toDigits_cons n.toInt.toNat
    have hpos : 0 ≤ n.toInt := Int64.le_iff_toInt_le.mp hn
    obtain ⟨ds, hds⟩ := hasSign_iff.mp h
    rw [Numeral.toList_write, if_pos hpos, hcs] at hds
    rcases hds with hds | hds
    · exact absurd (List.cons.inj hds).1 hplus
    · exact absurd (List.cons.inj hds).1 hminus
  · rw [Numeral.writeSigned, if_neg hn]

/-- A formula that is a text is written as it is. -/
theorem writtenFormula_of_text {s : String} (hs : a.formula = some (.formula s)) (hne : s ≠ "") :
    a.writtenFormula = some s := by
  rw [writtenFormula, hs]
  exact Text.filled_eq_some.mpr ⟨rfl, hne⟩

/-- A formula that is a number is written with its sign. -/
theorem writtenFormula_of_number {n : Int64} (hn : a.formula = some (.number n)) :
    a.writtenFormula = some (Numeral.writeSigned n) := by
  rw [writtenFormula, hn]
  exact Text.filled_eq_some.mpr ⟨rfl, (Numeral.isWord_writeSigned n).1⟩

/-- Unless there is a mode and nothing else, a formula stands alone with its sign, or there are keys. -/
theorem parts_of_not_modal {f : String} (hf : a.writtenFormula = some f) (hmodal : a.isModal = false) :
    (hasSign f = true ∧ a.parts = [f]) ∨ a.parts = a.keyedParts := by
  by_cases hbare : a.isBare = true
  · have hmode : Text.filled a.mode = none := by
      rw [isModal, hbare, hf] at hmodal
      simpa using hmodal
    rw [parts_lone hf hbare hmode]
    split
    next hsign => exact .inl ⟨hsign, rfl⟩
    · exact .inr rfl
  · exact .inr (parts_keyed hf (by simpa using hbare))

/-- With keys, or with a sign and nothing else, the formula is the first part of the body. -/
theorem parts_eq_cons {f : String} (hf : a.writtenFormula = some f) (hmodal : a.isModal = false)
    (hquotes : hasSign f = true → Token.needsQuotes f = false) :
    ∃ rest, a.parts = (if hasSign f then f else (Entry.mk "formula" f).toToken) :: rest := by
  rcases parts_of_not_modal hf hmodal with ⟨hsign, hparts⟩ | hparts
  · exact ⟨[], by rw [hparts, if_pos hsign]⟩
  · rw [hparts, keyedParts, hf, Option.map_some]
    split
    next hsign =>
      rw [Token.ofValue, hquotes hsign, if_neg Bool.false_ne_true]
      exact ⟨_, rfl⟩
    · exact ⟨_, rfl⟩

/-- A number with its sign is written without quotes. -/
theorem needsQuotes_writeSigned (n : Int64) : Token.needsQuotes (Numeral.writeSigned n) = false := by
  have hword := (Numeral.isWord_writeSigned n).2
  rw [Token.needsQuotes, List.any_eq_false]
  intro c hc
  simp [(hword c hc).1, (hword c hc).2.1]

/-- The sign that a row begins with is that of its first part. -/
theorem hasSign_row {f : String} (hne : f ≠ "") (ps : List String) :
    hasSign (Text.spaced ((f :: ps).filter (· ≠ ""))) = hasSign f := by
  obtain ⟨c, cs, hf⟩ := List.exists_cons_of_ne_nil (Token.toList_ne_nil hne)
  have hrow : ∃ ds, (Text.spaced ((f :: ps).filter (· ≠ ""))).toList = c :: ds := by
    rw [List.filter_cons_of_pos (by simpa using hne), Token.toList_spaced, List.map_cons, hf]
    cases (ps.filter (· ≠ "")).map String.toList with
    | nil => exact ⟨cs, by simp⟩
    | cons t ts => exact ⟨cs ++ [' '] ++ [' '].intercalate (t :: ts), by simp⟩
  obtain ⟨ds, hds⟩ := hrow
  rw [Bool.eq_iff_iff, hasSign_iff, hasSign_iff, hds, hf]
  simp [exists_or]

section Regular

variable (h : a.IsRegular)

include h

/-- The texts of a regular attack can stand between quotes. -/
theorem IsRegular.texts : ∀ t ∈ a.texts, Token.IsQuotable t := by
  intro t ht
  rcases mem_texts.mp ht with ht | ht | ht
  · obtain ⟨hterms, hclosed, -⟩ := h.formula t (Quantity.eq_of_mem_formula? ht)
    exact ⟨no_quote_of_hasTerms hterms, hclosed⟩
  · exact h.activity t ht
  · exact isQuotable_mode (h.mode t ht)

/-- The formula of a regular attack can stand where its canonical text has it. -/
theorem IsRegular.isLegible : a.IsLegible := by
  intro f hf
  obtain ⟨hf', hne⟩ := Text.filled_eq_some.mp hf
  obtain ⟨q, hq, rfl⟩ := Option.map_eq_some_iff.mp hf'
  -- the formula is a row of words, with its plus sign and without it
  have hwords : HasTerms q.toSignedText ∧ HasTerms (withoutPlus q.toSignedText) ∧
      (hasSign (withoutPlus q.toSignedText) = true →
        withoutPlus q.toSignedText = q.toSignedText) := by
    cases q with
    | number n =>
      show HasTerms (Numeral.writeSigned n) ∧ HasTerms (withoutPlus (Numeral.writeSigned n)) ∧ _
      have hsigned := isTerm_of_read? (Numeral.isWord_writeSigned n) (Numeral.read?_writeSigned n)
      have hplain := isTerm_of_read? (Numeral.isPlain_write n).1 (Numeral.read?_write n)
      rw [withoutPlus_writeSigned]
      refine ⟨hasTerms_singleton hsigned, hasTerms_singleton hplain, fun hsign => ?_⟩
      exact (withoutPlus_writeSigned n).trans (hasSign_write (withoutPlus_writeSigned n ▸ hsign))
    | formula s =>
      obtain ⟨hterms, -, hsign⟩ := h.formula s hq
      have hsame : withoutPlus s = s := withoutPlus_of_hasSign hsign
      show HasTerms s ∧ HasTerms (withoutPlus s) ∧ _
      rw [hsame]
      exact ⟨hterms, hterms, fun _ => hsame⟩
  obtain ⟨hterms, hwithout, hsign⟩ := hwords
  split
  · split
    next m hm => exact ⟨h.mode m (Text.filled_eq_some.mp hm).1, hwithout.1, hsign, hwithout.2⟩
    · exact fun _ => hterms.2
  · exact fun _ => hterms.not_mem_equals

/-- The canonical text of a regular attack with a stable formula is fixed. -/
theorem IsRegular.isFixed (stable : ∀ q ∈ a.formula, q.IsStable) :
    Command.IsFixed .attack (.attack a) :=
  Attack.isFixed (fun t ht => (h.texts t ht).2) stable (fun t ht => (h.texts t ht).1) h.isLegible

/-- A text that is an integer is read as that number. Beside a mode and nothing else the number is written
without its sign, and so comes back if the text was written like that. -/
theorem IsRegular.first?_modal {s : String} {n : Int64} (hs : a.formula = some (.formula s))
    (hn : Numeral.read? s = some n) (hmodal : a.isModal = true) :
    ∃ e : Command, Occurrence.first? (Command.write .attack (.attack a)) =
        some (Occurrence.whole .attack e (Command.write .attack (.attack a))) ∧
      (e.write .attack = Command.write .attack (.attack a) ↔ s = Numeral.write n) := by
  obtain ⟨hterms, -, hsign⟩ := h.formula s hs
  have hf := writtenFormula_of_text hs hterms.1
  obtain ⟨⟨hbare, -⟩, hmode⟩ : (a.isBare = true ∧ _) ∧ (Text.filled a.mode).isSome = true := by
    simpa [isModal] using hmodal
  obtain ⟨m, hm⟩ := Option.isSome_iff_exists.mp hmode
  obtain ⟨hm', hne⟩ := Text.filled_eq_some.mp hm
  -- a formula without a sign in front stands beside the mode as it is
  have hparts : a.parts = s :: (some m).toList := by
    rw [parts_mode hf hbare hm, withoutPlus_of_hasSign hsign]
    rfl
  have hfound := first?_words (fun t ht => (h.texts t ht).2) hterms (some m)
    (by simpa using h.mode m hm') hparts
  rw [Quantity.ofText_of_read? hn] at hfound
  refine ⟨_, hfound, ?_⟩
  have hparts' : parts { formula := some (.number n), mode := some m } = [Numeral.write n, m] := by
    rw [parts_mode (writtenFormula_of_number rfl) rfl (Text.filled_eq_some.mpr ⟨rfl, hne⟩),
      withoutPlus_writeSigned]
  show bracketed "attack" (parts { formula := some (.number n), mode := some m }) =
    bracketed "attack" a.parts ↔ _
  rw [hparts', hparts, Occurrence.bracketed_eq_iff]
  simp [hterms.1, hne, (Numeral.isPlain_write n).1.1, Text.spaced, String.intercalate_cons_cons,
    eq_comm]

/-- Without a mode or beside other settings a text that is an integer has a key, and the number that is
read a sign in place of it. -/
theorem IsRegular.first?_keyed_number {s : String} {n : Int64} (hs : a.formula = some (.formula s))
    (hn : Numeral.read? s = some n) (hmodal : a.isModal = false) :
    ∃ e : Command, Occurrence.first? (Command.write .attack (.attack a)) =
        some (Occurrence.whole .attack e (Command.write .attack (.attack a))) ∧
      e.write .attack ≠ Command.write .attack (.attack a) := by
  obtain ⟨hterms, -, hsign⟩ := h.formula s hs
  have hf := writtenFormula_of_text hs hterms.1
  have hkeyed : a.parts = a.keyedParts :=
    (parts_of_not_modal hf hmodal).resolve_left fun hlone => by
      rw [hsign] at hlone
      cases hlone.1
  have heq : ∀ f ∈ a.writtenFormula, hasSign f = true → '=' ∉ f.toList := by
    rw [hf]
    rintro f ⟨⟩ -
    exact hterms.not_mem_equals
  refine ⟨_, first?_keyed (fun t ht => (h.texts t ht).2) (fun t ht => (h.texts t ht).1) heq hkeyed, ?_⟩
  -- what is read begins with a sign, and what was written with a key
  have hf' : a.settled.writtenFormula = some (Numeral.writeSigned n) := by
    refine writtenFormula_of_number ?_
    rw [settled, hf, Option.map_some, Quantity.ofText_of_read? hn]
  have hmodal' : a.settled.isModal = false := by
    rw [← hmodal, isModal, isModal, hf, hf', ← Text.filled_filled a.mode, isBare, isBare,
      ← Text.filled_filled a.activity]
    rfl
  obtain ⟨rest, hparts⟩ := parts_eq_cons hf hmodal fun hs => by rw [hsign] at hs; cases hs
  obtain ⟨rest', hparts'⟩ := parts_eq_cons hf' hmodal' fun _ => needsQuotes_writeSigned n
  rw [hsign, if_neg (by decide)] at hparts
  rw [if_pos (hasSign_writeSigned n)] at hparts'
  show bracketed "attack" a.settled.parts ≠ bracketed "attack" a.parts
  rw [Ne, Occurrence.bracketed_eq_iff, hparts, hparts']
  intro hsame
  have hrow := congrArg hasSign hsame
  have hkey : hasSign (Entry.mk "formula" s).toToken = false := by
    simp [hasSign, Entry.toList_toToken]
  have hne : (Entry.mk "formula" s).toToken ≠ "" := by
    simp [← String.toList_inj, Entry.toList_toToken]
  rw [hasSign_row (Numeral.isWord_writeSigned n).1, hasSign_row hne, hkey, hasSign_writeSigned] at hrow
  cases hrow

/-- Where the formula is the text of a number, it comes back if it is the number's own text beside a
mode alone, and only then. -/
theorem IsRegular.first?_number {s : String} {n : Int64} (hs : a.formula = some (.formula s))
    (hn : Numeral.read? s = some n) :
    ∃ e : Command, Occurrence.first? (Command.write .attack (.attack a)) =
        some (Occurrence.whole .attack e (Command.write .attack (.attack a))) ∧
      (e.write .attack = Command.write .attack (.attack a) ↔
        a.isModal = true ∧ s = Numeral.write n) := by
  by_cases hmodal : a.isModal = true
  · obtain ⟨e, hfound, hiff⟩ := h.first?_modal hs hn hmodal
    exact ⟨e, hfound, by rw [hiff, and_iff_right hmodal]⟩
  · obtain ⟨e, hfound, hwrite⟩ := h.first?_keyed_number hs hn (by simpa using hmodal)
    exact ⟨e, hfound, iff_of_false hwrite fun hshown => hmodal hshown.1⟩

/-- The canonical text of a regular attack is found as a whole. It is its own canonical text if it shows
the formula as it is, and only then. -/
theorem first?_write_regular :
    ∃ e : Command, Occurrence.first? (Command.write .attack (.attack a)) =
        some (Occurrence.whole .attack e (Command.write .attack (.attack a))) ∧
      (e.write .attack = Command.write .attack (.attack a) ↔ a.ShowsFormula) := by
  by_cases hnumber : ∃ s n, a.formula = some (.formula s) ∧ Numeral.read? s = some n
  · obtain ⟨s, n, hs, hn⟩ := hnumber
    obtain ⟨e, hfound, hiff⟩ := h.first?_number hs hn
    refine ⟨e, hfound, hiff.trans ⟨fun hshown t m ht hm => ?_, fun hshown => hshown s n hs hn⟩⟩
    obtain rfl : s = t := Quantity.formula.inj (Option.some.inj (hs.symm.trans ht))
    obtain rfl : n = m := Option.some.inj (hn.symm.trans hm)
    exact hshown
  · have stable : ∀ q ∈ a.formula, q.IsStable := by
      intro q hq
      refine Quantity.isStable_of_formula fun s hs => ?_
      rw [Option.eq_none_iff_forall_ne_some]
      exact fun n hn => hnumber ⟨s, n, hs ▸ hq, hn⟩
    obtain ⟨e, hfound, hwrite⟩ := h.isFixed stable
    exact ⟨e, hfound, iff_of_true hwrite fun s n hs hn => absurd ⟨s, n, hs, hn⟩ hnumber⟩

end Regular

/-- An offhand attack whose formula is written in the digits of its number. -/
def offhandSeven : Attack :=
  { formula := some (.formula "7"), mode := some "offhand" }

/-- The digits of the number come back beside the mode. -/
theorem first?_write_offhandSeven :
    offhandSeven.IsRegular ∧ offhandSeven.ShowsFormula ∧
      ∃ e : Command, Occurrence.first? "[[/attack 7 offhand]]" =
          some (Occurrence.whole .attack e "[[/attack 7 offhand]]") ∧
        e.write .attack = "[[/attack 7 offhand]]" := by
  have h : offhandSeven.IsRegular :=
    { formula := by
        rintro s ⟨⟩
        exact ⟨hasTerms_singleton (by decide), by decide, by decide⟩
      mode := by decide
      activity := by decide }
  have hshows : offhandSeven.ShowsFormula := by
    rintro s n ⟨⟩ hn
    have hseven : Numeral.read? "7" = some 7 := by decide
    obtain rfl := Option.some.inj (hseven.symm.trans hn)
    exact ⟨by decide, by decide⟩
  obtain ⟨e, hfound, hiff⟩ := first?_write_regular h
  exact ⟨h, hshows, e, hfound, hiff.mpr hshows⟩

/-- A formula that is the text of a number loses its key, and gets a sign. -/
theorem canonical_formula_five :
    let a : Attack := { formula := some (.formula "5") }
    Command.write .attack (.attack a) = "[[/attack formula=5]]" ∧
      (Occurrence.first? "[[/attack formula=5]]").map Occurrence.canonical =
        some "[[/attack +5]]" := by
  decide +kernel

end Attack

end RollMarkup
