import Mathlib
import RollMarkup.Text.Blank

/-!
# Texts without blanks at their ends

Trimming leaves such a text (`isTrimmed_trim`), and leaves such a text as it is (`trim_eq_self`). It
makes up no characters.
-/

namespace RollMarkup.Text

variable {cs ds : List Char}

theorem isBlank_space : isBlank ' ' = true := by decide

/-- No letter and no digit is blank. -/
theorem isBlank_of_isAlphanum {c : Char} (h : c.isAlphanum = true) : isBlank c = false := by
  simp only [Char.isAlphanum, Char.isAlpha, Char.isUpper, Char.isLower, Char.isDigit,
    Bool.or_eq_true, Bool.and_eq_true, decide_eq_true_eq, ge_iff_le, UInt32.le_iff_toNat_le] at h
  have range : 0x30 ≤ c.toNat ∧ c.toNat ≤ 0x7A := by
    change ((65 ≤ c.toNat ∧ c.toNat ≤ 90) ∨ (97 ≤ c.toNat ∧ c.toNat ≤ 122)) ∨
      (48 ≤ c.toNat ∧ c.toNat ≤ 57) at h
    omega
  simp only [isBlank, blankRanges, List.any_cons, List.any_nil, Bool.or_false]
  simp
  omega

/-- A text with no blank at either end. -/
structure IsTrimmed (cs : List Char) : Prop where
  head : ∀ c ∈ cs.head?, isBlank c = false
  last : ∀ c ∈ cs.getLast?, isBlank c = false

theorem trimEnd_eq_self (h : ∀ c ∈ cs.getLast?, isBlank c = false) : trimEnd cs = cs := by
  have hrev : cs.reverse.dropWhile isBlank = cs.reverse := by
    cases hr : cs.reverse with
    | nil => rfl
    | cons c ds =>
      have hc : cs.getLast? = some c := by rw [List.getLast?_eq_head?_reverse, hr]; rfl
      simp [h c hc]
  rw [trimEnd, hrev, List.reverse_reverse]

theorem trim_eq_self (h : IsTrimmed cs) : trim cs = cs := by
  have hdrop : cs.dropWhile isBlank = cs := by
    cases cs with
    | nil => rfl
    | cons c cs => simp [h.head c rfl]
  rw [trim, hdrop, trimEnd_eq_self h.last]

/-- Of a text with no blank at its end, trimming takes those in front only. -/
theorem trim_eq_dropWhile (h : ∀ c ∈ cs.getLast?, isBlank c = false) :
    trim cs = cs.dropWhile isBlank := by
  refine trimEnd_eq_self fun c hc => ?_
  have hne : cs.dropWhile isBlank ≠ [] := List.ne_nil_of_mem (List.mem_of_getLast? hc)
  have hlast := List.getLast?_append_of_ne_nil (cs.takeWhile isBlank) hne
  rw [List.takeWhile_append_dropWhile, Option.mem_def.mp hc] at hlast
  exact h c hlast

theorem isBlank_head_dropWhile {c : Char} (h : c ∈ (cs.dropWhile isBlank).head?) :
    isBlank c = false := by
  have hnot := List.head?_dropWhile_not isBlank cs
  rw [Option.mem_def.mp h] at hnot
  exact hnot

/-- What is left when blanks are removed at the end stands at the front. -/
theorem trimEnd_isPrefix (cs : List Char) : trimEnd cs <+: cs := by
  have hsuffix : cs.reverse.dropWhile isBlank <:+ cs.reverse := List.dropWhile_suffix isBlank
  rw [trimEnd, ← List.reverse_suffix, List.reverse_reverse]
  exact hsuffix

/-- Trimming leaves no blank at either end. -/
theorem isTrimmed_trim (cs : List Char) : IsTrimmed (trim cs) := by
  constructor
  · intro c hc
    obtain ⟨rest, hrest⟩ := trimEnd_isPrefix (cs.dropWhile isBlank)
    have hhead : c ∈ (cs.dropWhile isBlank).head? := by
      rw [← hrest, List.head?_append, Option.mem_def, ← trim, hc, Option.some_or]
    exact isBlank_head_dropWhile hhead
  · intro c hc
    rw [trim, trimEnd, List.getLast?_reverse] at hc
    exact isBlank_head_dropWhile hc

theorem mem_of_mem_trim {c : Char} (h : c ∈ trim cs) : c ∈ cs :=
  (List.dropWhile_suffix isBlank).subset ((trimEnd_isPrefix _).subset h)

theorem trim_cons_space (cs : List Char) : trim (' ' :: cs) = trim cs := by
  simp [trim, isBlank_space]

/-- A blank at the end does not count either. -/
theorem trim_append_space (cs : List Char) : trim (cs ++ [' ']) = trim cs := by
  by_cases h : ∀ c ∈ cs, isBlank c = true
  · have hdrop : cs.dropWhile isBlank = [] := List.dropWhile_eq_nil_iff.mpr h
    rw [trim, trim, List.dropWhile_append, hdrop]
    rfl
  · have hdrop : cs.dropWhile isBlank ≠ [] := fun he => h (List.dropWhile_eq_nil_iff.mp he)
    rw [trim, trim, List.dropWhile_append, if_neg (by simpa using hdrop), trimEnd, trimEnd]
    simp [isBlank_space]

/-- Texts without blanks at their ends have none there when they are put together. -/
theorem IsTrimmed.append (hc : IsTrimmed cs) (hd : IsTrimmed ds) (hcs : cs ≠ []) (hds : ds ≠ [])
    (between : List Char) : IsTrimmed (cs ++ between ++ ds) := by
  constructor
  · intro c h
    rw [List.append_assoc, List.head?_append_of_ne_nil _ hcs] at h
    exact hc.head c h
  · intro c h
    rw [List.getLast?_append_of_ne_nil _ hds] at h
    exact hd.last c h

end RollMarkup.Text
