import Mathlib
import RollMarkup.Proofs.Command.Attack
import RollMarkup.Proofs.Token.Characters

/-!
# Canonical texts of attacks

What was read of a body without closing brackets is written without them (`closed_read`). The
canonical text of an attack whose formula can stand where it writes it (`IsLegible`) is read as an
attack with the same canonical text (`isFixed`).
-/

namespace RollMarkup

namespace Attack

variable {a : Attack}

/-! ### What is read -/

/-- An attack that is being read holds no closing bracket, and a formula that its text gives back. -/
structure Draft.IsClosed (d : Draft) : Prop where
  formula : ∀ q ∈ d.formula, q.IsStable ∧ ∀ s ∈ q.formula?, ']' ∉ s.toList
  activity : ∀ s ∈ d.activity, ']' ∉ s.toList
  mode : ∀ s ∈ d.mode, ']' ∉ s.toList
  words : ∀ s ∈ d.words, ']' ∉ s.toList

/-- An entry without a closing bracket leaves the attack closed. -/
theorem Draft.IsClosed.put {d : Draft} (hd : d.IsClosed) {e : Entry} (he : ']' ∉ e.value.toList) :
    (d.put e).IsClosed := by
  unfold Draft.put
  split
  next v => exact { hd with formula := Quantity.lacks_ofText he }
  next v =>
    refine { hd with activity := ?_ }
    rintro s ⟨⟩
    exact he
  next v =>
    refine { hd with mode := ?_ }
    rintro s ⟨⟩
    exact he
  next v => exact { hd with }
  next v => exact { hd with }
  next => exact hd

/-- A word without a closing bracket leaves the attack closed, whatever it is taken for. -/
theorem Draft.IsClosed.place {d : Draft} (hd : d.IsClosed) {t : String} (ht : ']' ∉ t.toList) :
    (d.place t).IsClosed := by
  unfold Draft.place
  split
  · exact { hd with }
  · split
    · refine { hd with mode := ?_ }
      rintro s ⟨⟩
      exact ht
    · have hword : ∀ s ∈ [Token.toValue t], ']' ∉ s.toList :=
        List.forall_mem_singleton.mpr (Token.not_mem_toValue ht)
      exact { hd with words := List.forall_mem_append.mpr ⟨hd.words, hword⟩ }

/-- A token without a closing bracket leaves the attack closed. -/
theorem Draft.IsClosed.add {d : Draft} (hd : d.IsClosed) {t : String} (ht : ']' ∉ t.toList) :
    (d.add t).IsClosed := by
  unfold Draft.add
  split
  next e he => exact hd.put (Entry.not_mem_ofToken? ht he)
  · exact hd.place ht

/-- An attack that is read from a body without closing brackets holds none. -/
theorem closed_read {body : String} (h : ']' ∉ body.toList) :
    (∀ s ∈ (read body).texts, ']' ∉ s.toList) ∧ ∀ q ∈ (read body).formula, q.IsStable := by
  have hempty : Draft.IsClosed {} := by
    refine ⟨?_, ?_, ?_, ?_⟩ <;> rintro _ ⟨⟩
  have hfold : ((Token.split body).foldl Draft.add {}).IsClosed := by
    apply List.foldlRecOn (motive := Draft.IsClosed) _ _ hempty
    intro d hd t ht
    exact hd.add (Token.not_mem_split h t ht)
  -- the words take the place of a formula that was given by key
  have hformula : ∀ q ∈ (read body).formula, q.IsStable ∧ ∀ s ∈ q.formula?, ']' ∉ s.toList := by
    unfold read Draft.finish
    split
    · exact hfold.formula
    · exact Quantity.lacks_ofText (Token.not_mem_spaced (by decide) hfold.words)
  have hother : (∀ s ∈ (read body).activity, ']' ∉ s.toList) ∧
      ∀ s ∈ (read body).mode, ']' ∉ s.toList := by
    unfold read Draft.finish
    split <;> exact ⟨hfold.activity, hfold.mode⟩
  refine ⟨fun s hs => ?_, fun q hq => (hformula q hq).1⟩
  rcases mem_texts.mp hs with hs | hs | hs
  · obtain ⟨q, hq, hs⟩ := Option.bind_eq_some_iff.mp hs
    exact (hformula q hq).2 s hs
  · exact hother.1 s hs
  · exact hother.2 s hs

/-! ### What is written again -/

/-- A stable formula is read back from the text it is written as. -/
theorem ofText_writtenFormula (stable : ∀ q ∈ a.formula, q.IsStable) {f : String}
    (hf : a.writtenFormula = some f) :
    ∃ q, a.formula = some q ∧ q.IsStable ∧ q.toSignedText = f ∧ Quantity.ofText f = q := by
  obtain ⟨hf, -⟩ := Text.filled_eq_some.mp hf
  obtain ⟨q, hq, rfl⟩ := Option.map_eq_some_iff.mp hf
  exact ⟨q, hq, stable q hq, rfl, (stable q hq).ofText_toSignedText⟩

/-- Settling an attack does not change how its formula is written. -/
theorem writtenFormula_settled (stable : ∀ q ∈ a.formula, q.IsStable) :
    a.settled.writtenFormula = a.writtenFormula := by
  show Text.filled ((a.writtenFormula.map Quantity.ofText).map Quantity.toSignedText) = _
  cases hf : a.writtenFormula with
  | none => rfl
  | some f =>
    obtain ⟨q, -, -, hsigned, hof⟩ := ofText_writtenFormula stable hf
    rw [Option.map_some, Option.map_some, hof, hsigned]
    exact Text.filled_eq_some.mpr ⟨rfl, (Text.filled_eq_some.mp hf).2⟩

/-- What an attack is settled as is written as the attack is. -/
theorem parts_settled (stable : ∀ q ∈ a.formula, q.IsStable) : a.settled.parts = a.parts := by
  have hactivity : Text.filled a.settled.activity = Text.filled a.activity := Text.filled_filled _
  have hmode : Text.filled a.settled.mode = Text.filled a.mode := Text.filled_filled _
  have hkeyed : a.settled.keyedParts = a.keyedParts := by
    rw [keyedParts, writtenFormula_settled stable, hactivity, hmode]
    rfl
  rw [parts, writtenFormula_settled stable, hactivity, hmode, hkeyed]
  rfl

/-- Whether the formula of an attack can stand where its canonical text has it. Beside a mode a formula
loses one plus sign, and no further sign may stand behind that. -/
def IsLegible (a : Attack) : Prop :=
  ∀ f ∈ a.writtenFormula,
    if a.isBare = true then
      match Text.filled a.mode with
      | some m => m ∈ modes ∧ withoutPlus f ≠ "" ∧
          (hasSign (withoutPlus f) = true → withoutPlus f = f) ∧
            ∃ ws, withoutPlus f = Text.spaced ws ∧ ∀ w ∈ ws, IsTerm w
      | none => hasSign f = true → ∃ ws, f = Text.spaced ws ∧ ∀ w ∈ ws, IsTerm w
    else hasSign f = true → '=' ∉ f.toList

/-- The canonical text of an attack that is written by key is fixed. -/
theorem isFixed_keyed (closed : ∀ s ∈ a.texts, ']' ∉ s.toList)
    (stable : ∀ q ∈ a.formula, q.IsStable) (quotes : ∀ s ∈ a.texts, '"' ∉ s.toList)
    (heq : ∀ f ∈ a.writtenFormula, hasSign f = true → '=' ∉ f.toList)
    (hparts : a.parts = a.keyedParts) : Command.IsFixed .attack (.attack a) :=
  ⟨_, first?_keyed closed quotes heq hparts, congrArg (bracketed "attack") (parts_settled stable)⟩

/-- A formula with a sign that stands alone is read as that formula. -/
theorem isFixed_lone (closed : ∀ s ∈ a.texts, ']' ∉ s.toList)
    (stable : ∀ q ∈ a.formula, q.IsStable) {f : String} (hf : a.writtenFormula = some f)
    (hsign : hasSign f = true) (hparts : a.parts = [f]) (hterms : HasTerms f) :
    Command.IsFixed .attack (.attack a) := by
  obtain ⟨q, -, -, hsigned, hof⟩ := ofText_writtenFormula stable hf
  have hwritten : writtenFormula { formula := some (.ofText f) } = some f := by
    rw [hof]
    exact Text.filled_eq_some.mpr ⟨congrArg some hsigned, hterms.1⟩
  refine ⟨_, first?_words closed hterms none (by simp) hparts, congrArg (bracketed "attack") ?_⟩
  rw [parts_lone hwritten rfl rfl, if_pos hsign, hparts]

/-- What stands behind a plus sign and has no sign itself is read as what has the plus sign. -/
theorem read?_of_plus {s : String} {cs : List Char} (hs : s.toList = '+' :: cs)
    (hsign : hasSign (String.ofList cs) = false) :
    Numeral.read? (String.ofList cs) = Numeral.read? s := by
  have hno : ∀ ds, cs ≠ '-' :: ds ∧ cs ≠ '+' :: ds := by
    intro ds
    have hfalse := fun h => Bool.false_ne_true (hsign.symm.trans (hasSign_iff.mpr h))
    exact ⟨fun h => hfalse ⟨ds, .inr (by simpa using h)⟩,
      fun h => hfalse ⟨ds, .inl (by simpa using h)⟩⟩
  have hdigits : Numeral.ofChars? cs =
      (Numeral.natural? cs).bind fun n => Numeral.ofInt? n := by
    unfold Numeral.ofChars?
    split
    next ds => exact absurd rfl (hno ds).1
    next ds => exact absurd rfl (hno ds).2
    · rfl
  rw [Numeral.read?, Numeral.read?, hs, String.toList_ofList, hdigits]
  rfl

/-- A formula that lost its plus sign loses it again, whether it was a number or not. -/
theorem withoutPlus_ofText {q : Quantity} (stable : q.IsStable)
    (hsign : hasSign (withoutPlus q.toSignedText) = true →
      withoutPlus q.toSignedText = q.toSignedText) :
    withoutPlus (Quantity.ofText (withoutPlus q.toSignedText)).toSignedText =
      withoutPlus q.toSignedText := by
  -- without a plus sign nothing is lost; with one, what is left has no sign, by the hypothesis
  by_cases hplus : ∃ cs, q.toSignedText.toList = '+' :: cs
  · obtain ⟨cs, hcs⟩ := hplus
    rw [withoutPlus_of_plus hcs] at hsign ⊢
    have hnone : hasSign (String.ofList cs) = false := by
      rw [← Bool.not_eq_true]
      intro h
      have hlen := congrArg (List.length ∘ String.toList) (hsign h)
      simp [hcs] at hlen
    have hread := read?_of_plus hcs hnone
    cases q with
    | number n =>
      have hn : Quantity.ofText (String.ofList cs) = .number n :=
        Quantity.ofText_of_read? (hread.trans (Numeral.read?_writeSigned n))
      rw [hn, withoutPlus_of_plus hcs]
    | formula s =>
      rw [Quantity.ofText_of_read?_eq_none (hread.trans stable.read?_eq_none)]
      refine withoutPlus_of_no_plus fun ds hds => ?_
      have hs : hasSign (String.ofList cs) = true := hasSign_iff.mpr ⟨ds, .inl hds⟩
      rw [hnone] at hs
      cases hs
  · have hsame := withoutPlus_of_no_plus fun cs h => hplus ⟨cs, h⟩
    rw [hsame, stable.ofText_toSignedText, hsame]

/-- The words of a formula beside a mode are read as that formula. -/
theorem isFixed_mode (closed : ∀ s ∈ a.texts, ']' ∉ s.toList)
    (stable : ∀ q ∈ a.formula, q.IsStable) {f m : String} (hf : a.writtenFormula = some f)
    (hparts : a.parts = [withoutPlus f, m]) (hm : m ∈ modes)
    (hsign : hasSign (withoutPlus f) = true → withoutPlus f = f)
    (hterms : HasTerms (withoutPlus f)) : Command.IsFixed .attack (.attack a) := by
  obtain ⟨q, -, hstable, hsigned, -⟩ := ofText_writtenFormula stable hf
  have hagain : withoutPlus (Quantity.ofText (withoutPlus f)).toSignedText = withoutPlus f := by
    rw [← hsigned] at hsign ⊢
    exact withoutPlus_ofText hstable hsign
  have hwritten : writtenFormula { formula := some (.ofText (withoutPlus f)), mode := some m } =
      some (Quantity.ofText (withoutPlus f)).toSignedText := by
    refine Text.filled_eq_some.mpr ⟨rfl, fun he => hterms.1 ?_⟩
    rw [← hagain, he]
    rfl
  have hmode : Text.filled (some m) = some m := Text.filled_eq_some.mpr ⟨rfl, (isWord_mode hm).1⟩
  refine ⟨_, first?_words closed hterms (some m) (by simpa using hm) hparts,
    congrArg (bracketed "attack") ?_⟩
  rw [parts_mode hwritten rfl hmode, hagain, hparts]

/-- The canonical text of a legible attack is fixed. -/
theorem isFixed (closed : ∀ s ∈ a.texts, ']' ∉ s.toList) (stable : ∀ q ∈ a.formula, q.IsStable)
    (quotes : ∀ s ∈ a.texts, '"' ∉ s.toList) (h : a.IsLegible) :
    Command.IsFixed .attack (.attack a) := by
  -- without a formula, with a bare one beside a mode or alone, and with one behind its key
  cases hf : a.writtenFormula with
  | none =>
    rcases parts_without_formula hf with ⟨f, -, hparts⟩ | hparts
    · refine ⟨_, first?_format closed hparts, congrArg (bracketed "attack") ?_⟩
      rw [hparts]
      rfl
    · exact isFixed_keyed closed stable quotes (by simp [hf]) hparts
  | some f =>
    have hlegible := h f hf
    split at hlegible
    next hbare =>
      cases hm : Text.filled a.mode with
      | some m =>
        rw [hm] at hlegible
        obtain ⟨hmode, hne, hsign, hwords⟩ := hlegible
        exact isFixed_mode closed stable hf (parts_mode hf hbare hm) hmode hsign ⟨hne, hwords⟩
      | none =>
        rw [hm] at hlegible
        have hparts := parts_lone hf hbare hm
        -- alone, a formula is written bare only if it has a sign
        by_cases hsign : hasSign f = true
        · rw [if_pos hsign] at hparts
          have hne : f ≠ "" := (Text.filled_eq_some.mp hf).2
          exact isFixed_lone closed stable hf hsign hparts ⟨hne, hlegible hsign⟩
        · rw [if_neg hsign] at hparts
          refine isFixed_keyed closed stable quotes (fun g hg hs => ?_) hparts
          rw [hf] at hg
          obtain rfl := Option.some.inj hg
          exact absurd hs hsign
    next hbare =>
      refine isFixed_keyed closed stable quotes (fun g hg hs => ?_)
        (parts_keyed hf (by simpa using hbare))
      rw [hf] at hg
      obtain rfl := Option.some.inj hg
      exact hlegible hs

end Attack

end RollMarkup
