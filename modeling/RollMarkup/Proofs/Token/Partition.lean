import Mathlib
import RollMarkup.Proofs.Token.Blanks
import RollMarkup.Proofs.Token.Runs

/-!
# A body and its tokens

A gap is a blank outside quotes. The tokens of a body are the stretches between its gaps, less those that
are empty (`splitChars_eq_stretches`), so that they make up the body without its gaps and none of them
holds one (`isPartition_split`).
-/

namespace RollMarkup

namespace Token

/-! ### Gaps -/

/-- Whether a character that stands behind `before` is a gap: a blank outside quotes, where each quote
that was opened is closed. -/
def isGap (before : List Char) (c : Char) : Bool :=
  Text.isBlank c && before.count '"' % 2 == 0

/-- The characters of a text, each with what stands before it. The text itself stands behind `front`. -/
def placed (front : List Char) : List Char → List (List Char × Char)
  | [] => []
  | c :: cs => (front, c) :: placed (front ++ [c]) cs

/-- The characters of a text that are no gaps. -/
def withoutGaps (cs : List Char) : List Char :=
  ((placed [] cs).filter fun p => !isGap p.1 p.2).map Prod.snd

/-- What stands between the gaps of a text. The text itself stands behind `front`. -/
def stretches (front cs : List Char) : List (List Char) :=
  ((placed front cs).splitOnP fun p => isGap p.1 p.2).map fun ps => ps.map Prod.snd

/-- A gap starts a new stretch. -/
theorem stretches_cons_of_gap {front cs : List Char} {c : Char} (h : isGap front c = true) :
    stretches front (c :: cs) = [] :: stretches (front ++ [c]) cs := by
  rw [stretches, placed, List.splitOnP_cons_eq_if_modifyHead, if_pos h]
  rfl

/-- A character that is no gap goes on with the stretch it stands before. -/
theorem stretches_cons_of_not_gap {front cs : List Char} {c : Char} (h : isGap front c = false) :
    stretches front (c :: cs) = (stretches (front ++ [c]) cs).modifyHead (c :: ·) := by
  rw [stretches, placed, List.splitOnP_cons_eq_if_modifyHead, if_neg (by simp [h]), stretches]
  cases (placed (front ++ [c]) cs).splitOnP fun p => isGap p.1 p.2 <;> rfl

theorem count_append_of_ne {q : Bool} {front : List Char} (h : front.count '"' % 2 = q.toNat)
    {c : Char} (hc : c ≠ '"') : (front ++ [c]).count '"' % 2 = q.toNat := by
  rw [List.count_append, List.count_singleton, if_neg (by simpa using hc)]
  exact h

/-- A scan takes the first stretch and leaves the others that are not empty. -/
theorem exists_stretches {q : Bool} (front : List Char) (h : front.count '"' % 2 = q.toNat)
    (cs : List Char) :
    ∃ rest, stretches front cs = (scan q cs).1 :: rest ∧ (scan q cs).2 = rest.filter (· ≠ []) := by
  -- the scan is inside quotes exactly if an odd number of them stands in front
  induction q, cs using scan_induction generalizing front with
  | nil q => exact ⟨[], rfl, rfl⟩
  | quote q cs ih =>
    have hfront : (front ++ ['"']).count '"' % 2 = (!q).toNat := by
      rw [List.count_append, List.count_singleton_self, parity_succ, Bool.not_not]
      exact h
    obtain ⟨rest, hrest, htail⟩ := ih _ hfront
    refine ⟨rest, ?_, ?_⟩
    · rw [stretches_cons_of_not_gap (by simp [isGap, isBlank_quote]), hrest, scan_quote]
      rfl
    · rw [scan_quote, htail]
  | gap b cs hb ih =>
    obtain ⟨rest, hrest, htail⟩ := ih _ (count_append_of_ne h (ne_quote_of_isBlank hb))
    have hgap : isGap front b = true := by
      rw [isGap, hb, h]
      rfl
    refine ⟨(scan false cs).1 :: rest, ?_, ?_⟩
    · rw [stretches_cons_of_gap hgap, hrest, scan_gap cs hb]
    · rw [scan_gap cs hb, splitChars, htail]
      by_cases hfirst : (scan false cs).1 = [] <;> simp [hfirst]
  | kept q c cs hc hkept ih =>
    obtain ⟨rest, hrest, htail⟩ := ih _ (count_append_of_ne h hc)
    have hgap : isGap front c = false := by
      rw [isGap, h]
      revert hkept
      cases q <;> cases Text.isBlank c <;> decide
    refine ⟨rest, ?_, ?_⟩
    · rw [stretches_cons_of_not_gap hgap, hrest, scan_kept cs hc hkept]
      rfl
    · rw [scan_kept cs hc hkept, htail]

/-- The tokens are the stretches between the gaps, less those that are empty. -/
theorem splitChars_eq_stretches (cs : List Char) :
    splitChars cs = (stretches [] cs).filter (· ≠ []) := by
  obtain ⟨rest, hrest, htail⟩ := exists_stretches (q := false) [] rfl cs
  rw [hrest, splitChars, htail]
  by_cases hfirst : (scan false cs).1 = [] <;> simp [hfirst]

/-- What a list is split at is all that the pieces together lack. -/
theorem flatten_splitOnP {α : Type} (p : α → Bool) (l : List α) :
    (l.splitOnP p).flatten = l.filter fun a => !p a := by
  induction l with
  | nil => rfl
  | cons a l ih =>
    rw [List.splitOnP_cons_eq_if_modifyHead]
    by_cases h : p a = true
    · simp [h, ih]
    · obtain ⟨first, rest, hl⟩ := List.exists_cons_of_ne_nil (List.splitOnP_ne_nil p l)
      rw [hl] at ih ⊢
      simpa [h] using ih

/-- The tokens make up the text without its gaps. -/
theorem flatten_splitChars (cs : List Char) : (splitChars cs).flatten = withoutGaps cs := by
  have hempty : ∀ ls : List (List Char), (ls.filter (· ≠ [])).flatten = ls.flatten :=
    fun ls => List.flatten_filter_ne_nil
  rw [splitChars_eq_stretches, hempty, stretches, ← List.map_flatten, flatten_splitOnP, withoutGaps]

/-- A blank stands in a token only behind a quote that is open there. -/
theorem not_isBalanced_of_mem {cs t before behind : List Char} {b : Char} (ht : t ∈ splitChars cs)
    (hsplit : t = before ++ b :: behind) (hb : Text.isBlank b = true) : ¬ IsBalanced before := by
  intro hbalanced
  -- outside quotes the blank would end a token, and a token is shorter than the text around it
  have hsingle : splitChars before ++ splitChars behind = [t] := by
    rw [← splitChars_append_blank hb hbalanced, ← hsplit, splitChars_of_mem ht]
  have hlength : t.length = before.length + behind.length + 1 := by
    rw [hsplit, List.length_append, List.length_cons]
    omega
  have hmem : t ∈ splitChars before ++ splitChars behind := by
    rw [hsingle]
    exact List.mem_singleton_self t
  rcases List.mem_append.mp hmem with h | h
  · have := (infix_of_mem_splitChars h).length_le
    omega
  · have := (infix_of_mem_splitChars h).length_le
    omega

/-! ### Partitions -/

/-- How the tokens of a body share it among them. -/
structure IsPartition (body : String) (ts : List String) : Prop where
  /-- No token is empty. -/
  filled : ∀ t ∈ ts, t ≠ ""
  /-- Only the last token may leave a quote open. -/
  balanced : ∀ t ∈ ts.dropLast, IsBalanced t.toList
  /-- In a token a blank stands only behind an odd number of its quotes. -/
  quoted : ∀ t ∈ ts, ∀ before b behind, t.toList = before ++ b :: behind → Text.isBlank b = true →
    ¬ IsBalanced before
  /-- Nothing of the body is lost but its gaps, and nothing is added to it. -/
  joined : ts.flatMap String.toList = withoutGaps body.toList
  /-- Tokens end at gaps and nowhere else. -/
  parted : ts.map String.toList = (stretches [] body.toList).filter (· ≠ [])
  /-- With single spaces between them, the tokens come apart again. -/
  restored : split (Text.spaced ts) = ts

theorem toList_split (body : String) : (split body).map String.toList = splitChars body.toList := by
  simp [split, Function.comp_def]

/-- The tokens of a body partition it. -/
theorem isPartition_split (body : String) : IsPartition body (split body) where
  filled t ht := ne_empty_of_mem_split ht
  balanced t ht := isBalanced_of_closes (closes_of_mem_dropLast ht)
  quoted t ht before b behind hsplit hb := by
    have hmem : t.toList ∈ splitChars body.toList := by
      rw [← toList_split]
      exact List.mem_map_of_mem ht
    exact not_isBalanced_of_mem hmem hsplit hb
  joined := by
    rw [List.flatMap_def, toList_split, flatten_splitChars]
  parted := by
    rw [toList_split, splitChars_eq_stretches]
  restored := split_spaced_of_infix List.infix_rfl

example : split " cold \"sneak attack\"s \n \"no end" = ["cold", "\"sneak attack\"s", "\"no end"] := by
  decide

end Token

end RollMarkup
