import Mathlib
import RollMarkup.Proofs.Token.Layout

/-!
# Tokens that are split again

What was split once is not split further. A token is the only token of its own text
(`split_of_mem_split`), and tokens that follow each other in a body are, with single spaces between
them, split into the same tokens again (`split_spaced_of_infix`). This holds also where the quotes of
the last token are never closed.
-/

namespace RollMarkup

namespace Token

/-- The first token of a text is read in one piece where it stands alone. -/
theorem scan_fst (q : Bool) (cs : List Char) : scan q (scan q cs).1 = ((scan q cs).1, []) := by
  induction q, cs using scan_induction with
  | nil q => rfl
  | quote q cs ih => rw [scan_quote, scan_quote, ih]
  | gap b cs hb ih =>
    rw [scan_gap cs hb]
    rfl
  | kept q c cs hc hkept ih => rw [scan_kept cs hc hkept, scan_kept _ hc hkept, ih]

/-- Every token is the first one of some text. -/
theorem exists_of_mem_scan {q : Bool} {cs t : List Char} (ht : t ∈ (scan q cs).2) :
    t ≠ [] ∧ ∃ ds, t = (scan false ds).1 := by
  induction q, cs using scan_induction with
  | nil q => cases ht
  | quote q cs ih =>
    rw [scan_quote] at ht
    exact ih ht
  | gap b cs hb ih =>
    rw [scan_gap cs hb] at ht
    rcases mem_splitChars_iff.mp ht with ⟨hne, rfl⟩ | ht
    · exact ⟨hne, cs, rfl⟩
    · exact ih ht
  | kept q c cs hc hkept ih =>
    rw [scan_kept cs hc hkept] at ht
    exact ih ht

/-- A token that is split again is one token. -/
theorem splitChars_of_mem {cs t : List Char} (ht : t ∈ splitChars cs) : splitChars t = [t] := by
  obtain ⟨hne, ds, rfl⟩ : t ≠ [] ∧ ∃ ds, t = (scan false ds).1 := by
    rcases mem_splitChars_iff.mp ht with ⟨hne, rfl⟩ | ht
    · exact ⟨hne, cs, rfl⟩
    · exact exists_of_mem_scan ht
  rw [splitChars, scan_fst, if_neg (by simpa using hne)]

/-- A token is the only one of its own text. -/
theorem split_of_mem_split {body t : String} (ht : t ∈ split body) : split t = [t] := by
  obtain ⟨cs, hcs, rfl⟩ := List.mem_map.mp ht
  rw [split, String.toList_ofList, splitChars_of_mem hcs, List.map_singleton]

/-- Tokens that follow each other in a body are split into themselves again. -/
theorem split_spaced_of_infix {body : String} {ts : List String} (h : ts <:+: split body) :
    split (Text.spaced ts) = ts := by
  induction ts with
  | nil => rfl
  | cons t ts ih =>
    cases ts with
    | nil => exact split_of_mem_split (h.subset List.mem_cons_self)
    | cons u us =>
      have hrest : split (Text.spaced (u :: us)) = u :: us :=
        ih ((List.suffix_cons t (u :: us)).isInfix.trans h)
      -- another token follows, so that the first one ends outside quotes
      have hcloses : closes false t.toList = true := by
        obtain ⟨before, behind, hbody⟩ := h
        have hmem : t ∈ (split body).dropLast := by
          rw [← hbody, List.append_assoc, List.dropLast_append_of_ne_nil (by simp)]
          simp
        exact closes_of_mem_dropLast hmem
      have hne : t.toList ≠ [] := toList_ne_nil (ne_empty_of_mem_split (h.subset List.mem_cons_self))
      have hrow : (Text.spaced (t :: u :: us)).toList =
          t.toList ++ ' ' :: (Text.spaced (u :: us)).toList := by
        simp [Text.spaced, String.intercalate_cons_cons]
      rw [split, hrow, splitChars_append_space hne hcloses, List.map_cons, String.ofList_toList]
      exact congrArg (t :: ·) hrest

end Token

end RollMarkup
