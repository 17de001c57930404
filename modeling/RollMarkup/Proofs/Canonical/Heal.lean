import Mathlib
import RollMarkup.Proofs.Command.Heal
import RollMarkup.Proofs.Token.Characters

/-!
# Canonical texts of healing rolls

What was read of a body without closing brackets is written without them (`closed_read`). The
canonical text of a healing roll whose words name nothing restored, but for the last one (`IsLegible`), is
read as a healing roll with the same canonical text (`isFixed`).
-/

namespace RollMarkup

namespace Heal

variable {h : Heal}

/-! ### What is read -/

/-- A healing roll that holds no closing bracket, and an average that its text gives back. -/
structure IsClosed (h : Heal) : Prop where
  formula : ∀ s ∈ h.formula, ']' ∉ s.toList
  average : ∀ a ∈ h.average, a.IsStable ∧ ∀ s ∈ a.formula?, ']' ∉ s.toList
  activity : ∀ s ∈ h.activity, ']' ∉ s.toList

/-- No text of closed healing holds a closing bracket. -/
theorem IsClosed.texts (hc : h.IsClosed) : ∀ s ∈ h.texts, ']' ∉ s.toList := by
  intro s hs
  rcases mem_texts.mp hs with hs | hs | hs
  · exact hc.formula s hs
  · obtain ⟨a, ha, hs⟩ := Option.bind_eq_some_iff.mp hs
    exact (hc.average a ha).2 s hs
  · exact hc.activity s hs

theorem isClosed_empty : IsClosed {} := by
  refine ⟨?_, ?_, ?_⟩ <;> rintro _ ⟨⟩

/-- An entry without a closing bracket leaves the healing closed. -/
theorem IsClosed.put (hc : h.IsClosed) {e : Entry} (he : ']' ∉ e.value.toList) :
    (h.put e).IsClosed := by
  unfold Heal.put
  split
  next v =>
    refine { hc with formula := ?_ }
    rintro s ⟨⟩
    exact he
  next v => exact { hc with }
  next v => exact { hc with average := Average.lacks_ofText he }
  next v =>
    refine { hc with activity := ?_ }
    rintro s ⟨⟩
    exact he
  next v => exact { hc with }
  next => exact hc

/-- A token without a closing bracket leaves the healing closed. -/
theorem IsClosed.add (hc : h.IsClosed) {t : String} (ht : ']' ∉ t.toList) :
    (h.add t).IsClosed := by
  unfold Heal.add
  split
  next e he => exact hc.put (Entry.not_mem_ofToken? ht he)
  · split
    · refine { hc with average := ?_ }
      rintro a ⟨⟩
      exact ⟨Average.isStable_shown true, fun s hs => by cases hs⟩
    · exact hc

/-- Healing that is read without keys from closed tokens is closed. -/
theorem isClosed_readPositional {ts : List String} (ht : ∀ t ∈ ts, ']' ∉ t.toList) :
    (readPositional ts).IsClosed := by
  obtain ⟨hmem, hlacks⟩ := Suffix.lacks_cut ht
  have haverage : ∀ a ∈ (Suffix.cut ts).2.average,
      a.IsStable ∧ ∀ s ∈ a.formula?, ']' ∉ s.toList := fun a ha =>
    ⟨hlacks.stable a ha, fun s hs => hlacks.average s (Option.bind_eq_some_iff.mpr ⟨a, ha, hs⟩)⟩
  refine ⟨fun s hs => ?_, haverage, hlacks.activity⟩
  unfold readPositional at hs
  dsimp only at hs
  split at hs
  · cases hs
  · obtain rfl := Option.some.inj hs
    exact Token.not_mem_spaced (by decide) fun t hmem' =>
      ht t (hmem t (List.mem_filter.mp hmem').1)

/-- A healing roll that is read from a body without closing brackets holds none. -/
theorem closed_read {body : String} (hb : ']' ∉ body.toList) : (read body).IsClosed := by
  have htokens := Token.not_mem_split hb
  unfold read
  split
  · exact isClosed_empty
  next t ts hsplit =>
    rw [hsplit] at htokens
    split
    · apply List.foldlRecOn (motive := IsClosed) _ _ isClosed_empty
      intro e he u hu
      exact he.add (htokens u hu)
    · exact isClosed_readPositional htokens

/-! ### What is written again -/

/-- What a healing roll is settled as is written as the healing roll is, in a body with keys. -/
theorem parts_settled (hkeys : h.needsKeys = true) : h.settled.parts = h.parts := by
  have hhealing : (h.settled.healing == some .hitPoints) = (h.healing == some .hitPoints) ∧
      (h.settled.healing.map fun k => Entry.mk "type" (keyedWord k)) =
        h.healing.map fun k => Entry.mk "type" (keyedWord k) := by
    rw [settled]
    rcases h.healing with _ | _ | _ | _ <;> exact ⟨rfl, rfl⟩
  have haverage : Average.entry? h.settled.average = Average.entry? h.average ∧
      h.settled.average.any Average.replacesComputed = h.average.any Average.replacesComputed :=
    ⟨Average.entry?_kept h.average, Average.any_replacesComputed_kept h.average⟩
  have hformula : Text.filled h.settled.formula = Text.filled h.formula := Text.filled_filled _
  have hactivity : Text.filled h.settled.activity = Text.filled h.activity := Text.filled_filled _
  have hformat : h.settled.format = h.format := rfl
  have hkeys' : h.settled.needsKeys = true := by
    rw [needsKeys, haverage.2, hactivity, hformat, hhealing.1]
    exact hkeys
  rw [parts_keyed hkeys', parts_keyed hkeys, entries, haverage.1, hformula, hactivity, hformat,
    hhealing.2]
  rfl

/-- Whether the formula can stand without a key, unless the body has keys: what stands in front of the
average is a row of tokens that it can follow, none of which names what is restored but for the word for
temporary hit points at the end. -/
def IsLegible (h : Heal) : Prop :=
  h.needsKeys = true ∨ ∃ (ws : List String) (temporary : Bool),
    h.front = Text.spaced (bareTokens ws temporary) ∧ (∀ w ∈ ws, healing? w = none) ∧
      (Suffix.flag h.average).Follows (bareTokens ws temporary)

/-- What a body without keys tells is written as the row of its words. -/
theorem row_of_bare {ws : List String} {temporary : Bool} {a : Option Average}
    (ha : a.any Average.replacesComputed = false)
    (whole : ∀ t ∈ bareTokens ws temporary ++ Average.positional a, Token.IsWhole t) :
    Text.spaced ((bare ws temporary a).parts.filter (· ≠ "")) =
      Text.spaced (bareTokens ws temporary ++ Average.positional a) := by
  have hkeys : (bare ws temporary a).needsKeys = false := by
    rw [needsKeys, bare, Average.any_replacesComputed_kept, ha]
    cases temporary <;> rfl
  have hformula : (bare ws temporary a).formula.getD "" = Text.spaced ws := by
    rw [bare]
    cases ws <;> rfl
  have htemporary : (bare ws temporary a).healing.any Healing.isTemporary = temporary := by
    cases temporary <;> rfl
  have hpositional : Average.positional (bare ws temporary a).average = Average.positional a :=
    Average.positional_kept a
  have hfront := front_eq hformula fun w hw =>
    whole w (List.mem_append_left _ (List.mem_append_left _ hw))
  rw [htemporary] at hfront
  rw [← hpositional] at whole ⊢
  exact row_front hkeys hfront whole

/-- The canonical text of a legible healing roll is fixed. -/
theorem isFixed (hc : h.IsClosed) (quotes : ∀ s ∈ h.texts, '"' ∉ s.toList) (hl : h.IsLegible) :
    Command.IsFixed .heal (.heal h) := by
  by_cases hkeys : h.needsKeys = true
  · exact ⟨_, first?_of_keys hc.texts quotes (fun a ha => (hc.average a ha).1) hkeys,
      congrArg (bracketed "heal") (parts_settled hkeys)⟩
  · have hbare : h.needsKeys = false := by simpa using hkeys
    obtain ⟨ws, temporary, hfront, hws, hfollows⟩ := hl.resolve_left hkeys
    have ha := average_bare hbare
    have hwhole := hfollows.isWhole (Suffix.isSound_flag ha)
    rw [Suffix.tokens_flag] at hwhole
    exact Occurrence.isFixed_of_row (by decide) rfl (closed_parts hc.texts) hwhole
      (row_front hbare hfront hwhole) (congrArg Command.heal (read_bare hws ha hfollows)) rfl
      (row_of_bare ha hwhole)

end Heal

end RollMarkup
