import Mathlib
import RollMarkup.Command.Damage
import RollMarkup.Proofs.Token.Blanks

/-!
# The separator of damage rolls

That a body holds several rolls is told by its characters and not by its tokens. The separator stands
inside a token, or an ampersand is a token of its own (`mem_or_exists_of_hasSeveral`); the reverse needs
plain spaces around the ampersand, as a row of tokens has them (`hasSeveral_spaced_iff`). A word holds no
space, so that in a row only the tokens that are no words count (`hasSeveral_row_iff`).
-/

namespace RollMarkup

namespace Damage

variable {cs : List Char}

/-- The separator is seen exactly where an ampersand stands between two spaces. -/
theorem hasSeveral_iff : hasSeveral cs = true ↔ [' ', '&', ' '] <:+: cs := by
  induction cs with
  | nil => simp [hasSeveral]
  | cons c cs ih =>
    rw [hasSeveral, Bool.or_eq_true, List.isPrefixOf_iff_prefix, ih, List.infix_cons_iff]

/-- A text without a space does not take part in a separator that begins with one. -/
theorem hasSeveral_append (h : ' ' ∉ cs) (rest : List Char) :
    hasSeveral (cs ++ rest) = hasSeveral rest := by
  induction cs with
  | nil => rfl
  | cons c cs ih =>
    rw [List.mem_cons, not_or] at h
    have hc : (' ' == c) = false := beq_eq_false_iff_ne.mpr h.1
    rw [List.cons_append, hasSeveral, ih h.2]
    simp [List.isPrefixOf, hc]

/-- The separator ends with a space, so that no other character behind it belongs to it. -/
theorem hasSeveral_concat {c : Char} (h : c ≠ ' ') (cs : List Char) :
    hasSeveral (cs ++ [c]) = hasSeveral cs := by
  have hend : ¬ [' ', '&', ' '] <:+ cs ++ [c] := by
    rintro ⟨ds, hds⟩
    have hlast := congrArg List.getLast? hds
    rw [List.getLast?_concat, List.getLast?_append_of_ne_nil _ (by decide)] at hlast
    exact h (Option.some.inj hlast).symm
  rw [Bool.eq_iff_iff, hasSeveral_iff, hasSeveral_iff, List.infix_concat_iff]
  exact or_iff_right hend

/-- A text without a space holds no separator. -/
theorem hasSeveral_eq_false (h : ' ' ∉ cs) : hasSeveral cs = false := by
  have hend := hasSeveral_append h []
  rwa [List.append_nil] at hend

/-- A word holds no separator. -/
theorem hasSeveral_word {w : String} (h : Token.IsWord w) : hasSeveral w.toList = false :=
  hasSeveral_eq_false fun hspace => absurd (h.2 _ hspace).1 (by decide)

/-- The token of an entry holds the separator if the value does: it is in quotes then. -/
theorem hasSeveral_toToken {e : Entry} (hkey : ' ' ∉ e.key.toList) :
    hasSeveral e.toToken.toList = hasSeveral e.value.toList := by
  have hequals : ' ' ∉ e.key.toList ++ ['='] := by
    rw [List.mem_append, not_or]
    exact ⟨hkey, by decide⟩
  rw [Entry.toList_toToken, List.append_cons, hasSeveral_append hequals, Token.ofValue]
  split
  · have hquoted : ("\"" ++ e.value ++ "\"").toList = ['"'] ++ (e.value.toList ++ ['"']) := by simp
    rw [hquoted, hasSeveral_append (by decide), hasSeveral_concat (by decide)]
  · rfl

/-- A separator stands inside a token, or its ampersand is a token. -/
theorem mem_or_exists_of_hasSeveral (h : hasSeveral cs = true) :
    ['&'] ∈ Token.splitChars cs ∨ ∃ t ∈ Token.splitChars cs, hasSeveral t = true := by
  obtain ⟨before, behind, rfl⟩ := hasSeveral_iff.mp h
  by_cases hb : Token.IsBalanced before
  · -- both spaces stand outside quotes
    have hamp : Token.splitChars ['&'] = [['&']] := by decide
    have hlone : Token.IsBalanced ['&'] := rfl
    have hrow : before ++ [' ', '&', ' '] ++ behind = before ++ ' ' :: (['&'] ++ ' ' :: behind) := by
      simp
    left
    rw [hrow, Token.splitChars_append_blank Text.isBlank_space hb,
      Token.splitChars_append_blank Text.isBlank_space hlone, hamp]
    simp
  · have hquote : '"' ∉ [' ', '&', ' '] := by decide
    obtain ⟨t, ht, hin⟩ := Token.exists_infix_of_quoted hb hquote (by decide) behind
    exact .inr ⟨t, ht, hasSeveral_iff.mpr hin⟩

/-- A separator in a token is one in the text. -/
theorem hasSeveral_of_mem_splitChars {t : List Char} (ht : t ∈ Token.splitChars cs)
    (h : hasSeveral t = true) : hasSeveral cs = true :=
  hasSeveral_iff.mpr ((hasSeveral_iff.mp h).trans (Token.infix_of_mem_splitChars ht))

/-- In a row of tokens none of which is an ampersand, the separator stands inside a token. -/
theorem hasSeveral_spaced_iff {ts : List String} (h : ∀ t ∈ ts, Token.IsWhole t) (hamp : "&" ∉ ts) :
    hasSeveral (Text.spaced ts).toList = true ↔ ∃ t ∈ ts, hasSeveral t.toList = true := by
  have hsplit : Token.splitChars (Text.spaced ts).toList = ts.map String.toList :=
    Token.splitChars_spaced h
  constructor
  · intro hseveral
    rcases mem_or_exists_of_hasSeveral hseveral with hmem | ⟨t, ht, hin⟩
    · rw [hsplit] at hmem
      obtain ⟨t, ht, he⟩ := List.mem_map.mp hmem
      obtain rfl : t = "&" := String.toList_inj.mp he
      exact absurd ht hamp
    · rw [hsplit] at ht
      obtain ⟨u, hu, rfl⟩ := List.mem_map.mp ht
      exact ⟨u, hu, hin⟩
  · rintro ⟨t, ht, hin⟩
    refine hasSeveral_of_mem_splitChars (t := t.toList) ?_ hin
    rw [hsplit]
    exact List.mem_map_of_mem ht

/-- In a row of words and of other tokens, none of which is an ampersand, the separator stands inside one
of the other tokens. -/
theorem hasSeveral_row_iff {ws ts : List String} (hws : ∀ w ∈ ws, Token.IsWord w ∧ w ≠ "&")
    (hts : ∀ t ∈ ts, Token.IsWhole t ∧ t ≠ "&") :
    hasSeveral (Text.spaced (ws ++ ts)).toList = true ↔ ∃ t ∈ ts, hasSeveral t.toList = true := by
  have hrow : ∀ t ∈ ws ++ ts, Token.IsWhole t ∧ t ≠ "&" := by
    intro t ht
    rcases List.mem_append.mp ht with ht | ht
    · exact ⟨(hws t ht).1.isWhole, (hws t ht).2⟩
    · exact hts t ht
  rw [hasSeveral_spaced_iff (fun t ht => (hrow t ht).1) fun hamp => (hrow _ hamp).2 rfl]
  constructor
  · rintro ⟨t, ht, hin⟩
    rcases List.mem_append.mp ht with ht | ht
    · rw [hasSeveral_word (hws t ht).1] at hin
      cases hin
    · exact ⟨t, ht, hin⟩
  · rintro ⟨t, ht, hin⟩
    exact ⟨t, List.mem_append_right _ ht, hin⟩

end Damage

end RollMarkup
