import Mathlib
import RollMarkup.Proofs.Token.Characters

/-!
# How a text falls apart into tokens

`FallsApart` takes a text apart token by token, as it is split (`fallsApart`). So all tokens but the last
one end outside quotes, and together they are no longer than the text (`length_split`). A text whose
quotes are all closed is split as it would be alone, whatever stands behind it (`bodyTokens_spaced`).
-/

namespace RollMarkup

namespace Token

/-- A blank in front is not part of any token. -/
theorem splitChars_cons_blank {b : Char} (h : Text.isBlank b = true) (cs : List Char) :
    splitChars (b :: cs) = splitChars cs := by
  rw [splitChars, scan_gap cs h]
  rfl

theorem splitChars_dropWhile (cs : List Char) :
    splitChars (cs.dropWhile Text.isBlank) = splitChars cs := by
  induction cs with
  | nil => rfl
  | cons c cs ih =>
    by_cases hc : Text.isBlank c = true
    · rw [List.dropWhile_cons_of_pos hc, ih, splitChars_cons_blank hc]
    · rw [List.dropWhile_cons_of_neg hc]

/-! ### Tokens one by one -/

/-- The first token takes all of a text, or it ends outside quotes and at a blank. -/
theorem scan_cases (q : Bool) (cs : List Char) :
    scan q cs = (cs, []) ∨
      ∃ b rest, Text.isBlank b = true ∧ cs = (scan q cs).1 ++ b :: rest ∧
        closes q (scan q cs).1 = true ∧ (scan q cs).2 = splitChars rest := by
  induction q, cs using scan_induction with
  | nil q => exact .inl rfl
  | quote q cs ih =>
    rw [scan_quote]
    rcases ih with h | ⟨b, rest, hb, hcs, hcloses, hrest⟩
    · exact .inl (by rw [h])
    · exact .inr ⟨b, rest, hb, congrArg ('"' :: ·) hcs, by rwa [closes_quote], hrest⟩
  | gap b cs hb ih =>
    rw [scan_gap cs hb]
    exact .inr ⟨b, cs, hb, rfl, rfl, rfl⟩
  | kept q c cs hc hkept ih =>
    rw [scan_kept cs hc hkept]
    rcases ih with h | ⟨b, rest, hb, hcs, hcloses, hrest⟩
    · exact .inl (by rw [h])
    · exact .inr ⟨b, rest, hb, congrArg (c :: ·) hcs, by rwa [closes_kept _ hc hkept], hrest⟩

/-- How a text falls apart: blanks go, and a token takes all that is left or ends at a blank. -/
inductive FallsApart : List Char → List (List Char) → Prop where
  | nil : FallsApart [] []
  | blank {b : Char} {cs : List Char} {ts : List (List Char)} : Text.isBlank b = true →
      FallsApart cs ts → FallsApart (b :: cs) ts
  | last {t : List Char} : t ≠ [] → FallsApart t [t]
  | cons {t cs : List Char} {b : Char} {ts : List (List Char)} : closes false t = true →
      Text.isBlank b = true → FallsApart cs ts → FallsApart (t ++ b :: cs) (t :: ts)

/-- A text falls apart into the tokens that it is split into. -/
theorem fallsApart (cs : List Char) : FallsApart cs (splitChars cs) := by
  -- what stands behind a token is no tail of the recursion, only a shorter text
  induction hn : cs.length using Nat.strong_induction_on generalizing cs with
  | _ n ih =>
    cases cs with
    | nil => exact .nil
    | cons c cs =>
      by_cases hc : Text.isBlank c = true
      · rw [splitChars_cons_blank hc]
        exact .blank hc (ih cs.length (by rw [← hn]; simp) cs rfl)
      · -- a token begins with any other character
        have hfirst : (scan false (c :: cs)).1 ≠ [] := by
          by_cases hq : c = '"' <;> simp [scan, hq, hc]
        have hsplit : splitChars (c :: cs) =
            (scan false (c :: cs)).1 :: (scan false (c :: cs)).2 := by
          rw [splitChars, if_neg (by simpa using hfirst)]
        rw [hsplit]
        rcases scan_cases false (c :: cs) with h | ⟨b, rest, hb, hcs, hcloses, hrest⟩
        · rw [h]
          exact .last (List.cons_ne_nil c cs)
        · have hshort : rest.length < n := by
            rw [← hn, hcs, List.length_append, List.length_cons]
            omega
          have happart := FallsApart.cons hcloses hb (ih rest.length hshort rest rfl)
          rwa [← hcs, ← hrest] at happart

/-- Only the last token may end inside quotes. -/
theorem closes_of_mem_dropLast {body t : String} (ht : t ∈ (split body).dropLast) :
    closes false t.toList = true := by
  have hall : ∀ {cs : List Char} {ts : List (List Char)}, FallsApart cs ts →
      ∀ t ∈ ts.dropLast, closes false t = true := by
    intro cs ts h
    induction h with
    | nil => simp
    | blank _ _ ih => exact ih
    | last _ => simp
    | @cons t cs b ts ht _ _ ih =>
      -- `t` ends at a blank and so outside quotes; it is dropped only where nothing follows it
      cases ts with
      | nil => simp
      | cons u us =>
        intro v hv
        rcases List.mem_cons.mp hv with rfl | hv
        · exact ht
        · exact ih v hv
  rw [split, ← List.map_dropLast] at ht
  obtain ⟨cs, hcs, rfl⟩ := List.mem_map.mp ht
  rw [String.toList_ofList]
  exact hall (fallsApart body.toList) cs hcs

/-- Between two tokens at least one character is left out. -/
theorem length_split (s : String) :
    ((split s).map String.length).sum + (split s).length ≤ s.length + 1 := by
  have hall : ∀ {cs : List Char} {ts : List (List Char)}, FallsApart cs ts →
      (ts.map List.length).sum + ts.length ≤ cs.length + 1 := by
    intro cs ts h
    induction h with
    | nil => simp
    | blank _ _ ih => exact Nat.le_succ_of_le ih
    | last _ => simp
    | cons _ _ _ ih =>
      simp only [List.map_cons, List.sum_cons, List.length_cons, List.length_append]
      omega
  have hmap : (split s).map String.length = (splitChars s.toList).map List.length := by
    rw [split, List.map_map]
    exact List.map_congr_left fun cs _ => String.length_ofList
  rw [hmap, split, List.length_map, ← String.length_toList]
  exact hall (fallsApart s.toList)

/-- A text without tokens is blank throughout. -/
theorem FallsApart.isBlank {cs : List Char} {ts : List (List Char)} (h : FallsApart cs ts)
    (hts : ts = []) : ∀ c ∈ cs, Text.isBlank c = true := by
  induction h with
  | nil => simp
  | blank hb _ ih =>
    intro c hc
    rcases List.mem_cons.mp hc with rfl | hc
    · exact hb
    · exact ih hts c hc
  | last _ => cases hts
  | cons _ _ _ _ => cases hts

/-- Only blanks fall apart into nothing. -/
theorem isBlank_of_split {s : String} (h : split s = []) : ∀ c ∈ s.toList, Text.isBlank c = true :=
  (fallsApart s.toList).isBlank (List.map_eq_nil_iff.mp h)

/-- Tokens joined by spaces are as long as they are together, with one space between each two. -/
theorem length_spaced {ts : List String} (h : ts ≠ []) :
    (Text.spaced ts).length + 1 = (ts.map String.length).sum + ts.length := by
  induction ts with
  | nil => exact absurd rfl h
  | cons t ts ih =>
    cases ts with
    | nil => simp [Text.spaced]
    | cons u us =>
      have hrest := ih (List.cons_ne_nil u us)
      rw [Text.spaced] at hrest
      rw [Text.spaced, String.intercalate_cons_cons, String.length_append, String.length_append,
        List.map_cons, List.sum_cons, List.length_cons]
      have hspace : " ".length = 1 := rfl
      omega

/-- A text that is one of its own tokens is the only one. -/
theorem split_eq_singleton {s : String} (h : s ∈ split s) : split s = [s] := by
  obtain ⟨before, behind, hsplit⟩ := List.append_of_mem h
  have hlength := length_split s
  rw [hsplit] at hlength ⊢
  simp only [List.map_append, List.map_cons, List.sum_append, List.sum_cons, List.length_append,
    List.length_cons] at hlength
  obtain rfl : before = [] := List.eq_nil_of_length_eq_zero (by omega)
  obtain rfl : behind = [] := List.eq_nil_of_length_eq_zero (by omega)
  rfl

/-- A text without blanks is one token, whatever quotes are in it. -/
theorem split_of_no_blank {s : String} (hne : s ≠ "") (h : ∀ c ∈ s.toList, Text.isBlank c = false) :
    split s = [s] := by
  have hchars : splitChars s.toList = [s.toList] := by
    have hlist := toList_ne_nil hne
    have happart := fallsApart s.toList
    revert happart hlist h
    generalize splitChars s.toList = ts
    generalize s.toList = cs
    intro h hlist happart
    cases happart with
    | nil => exact absurd rfl hlist
    | blank hb _ =>
      rw [h _ List.mem_cons_self] at hb
      cases hb
    | last _ => rfl
    | cons _ hb _ =>
      rw [h _ (List.mem_append_right _ List.mem_cons_self)] at hb
      cases hb
  rw [split, hchars, List.map_singleton, String.ofList_toList]

/-- Texts that are one token each fall apart into themselves. -/
theorem flatMap_split {ts : List String} (h : ∀ t ∈ ts, split t = [t]) : ts.flatMap split = ts := by
  rw [List.flatMap_def, List.map_congr_left h, ← List.flatMap_def, List.flatMap_singleton']

/-! ### Balanced texts -/

/-- A text in which every quote that is opened is closed. -/
def IsBalanced (cs : List Char) : Prop :=
  cs.count '"' % 2 = 0

/-- One quote more or less, and what stands behind it is on the other side of a quote. -/
theorem parity_succ (n : Nat) (q : Bool) : (n + 1) % 2 = q.toNat ↔ n % 2 = (!q).toNat := by
  cases q <;> simp only [Bool.not_false, Bool.not_true, Bool.toNat_false, Bool.toNat_true] <;> omega

/-- A text that closes has an even number of quotes, or an odd one if it starts inside quotes. -/
theorem count_of_closes {q : Bool} {cs : List Char} (h : closes q cs = true) :
    cs.count '"' % 2 = q.toNat := by
  induction q, cs using scan_induction with
  | nil q =>
    obtain rfl : q = false := by simpa [closes] using h
    rfl
  | quote q cs ih =>
    rw [closes_quote] at h
    rw [List.count_cons_self, parity_succ]
    exact ih h
  | gap b cs hb ih =>
    -- a text with a blank outside its quotes does not close
    rw [closes_gap cs hb] at h
    cases h
  | kept q c cs hc hkept ih =>
    rw [closes_kept cs hc hkept] at h
    rw [List.count_cons_of_ne hc]
    exact ih h

/-- A text that closes is balanced. -/
theorem isBalanced_of_closes {cs : List Char} (h : closes false cs = true) : IsBalanced cs :=
  count_of_closes h

/-- What stands between two quotes is balanced if it is with them. -/
theorem isBalanced_toValue {t : String} (h : IsBalanced t.toList) :
    IsBalanced (toValue t).toList := by
  rw [toValue, String.toList_ofList]
  unfold unquoteChars
  split
  next cs hcs =>
    split
    next hlast =>
      obtain ⟨ds, hds⟩ := List.getLast?_eq_some_iff.mp hlast
      rw [hcs, hds, IsBalanced] at h
      rw [hds, List.dropLast_concat, IsBalanced]
      simp only [List.count_cons_self, List.count_append, List.count_nil] at h
      omega
    · rwa [hcs] at h
  · exact h

/-- Balanced tokens are balanced when they are joined by spaces. -/
theorem isBalanced_spaced {ts : List String} (h : ∀ t ∈ ts, IsBalanced t.toList) :
    IsBalanced (Text.spaced ts).toList := by
  rw [toList_spaced]
  induction ts with
  | nil => rfl
  | cons t ts ih =>
    have ht : t.toList.count '"' % 2 = 0 := h t List.mem_cons_self
    cases ts with
    | nil =>
      rw [List.map_singleton, List.intercalate_singleton]
      exact ht
    | cons u us =>
      have hrest := ih fun v hv => h v (List.mem_cons_of_mem _ hv)
      rw [IsBalanced] at hrest ⊢
      rw [List.map_cons, List.map_cons, List.intercalate_cons_cons, List.count_append,
        List.count_append]
      rw [List.map_cons] at hrest
      have hspace : [' '].count '"' = 0 := rfl
      omega

/-- A blank that stands outside quotes ends a token. -/
theorem scan_append_blank {b : Char} (hb : Text.isBlank b = true) {q : Bool} {cs : List Char}
    (h : cs.count '"' % 2 = q.toNat) (ds : List Char) :
    scan q (cs ++ b :: ds) = ((scan q cs).1, (scan q cs).2 ++ splitChars ds) := by
  induction q, cs using scan_induction with
  | nil q =>
    -- no quote is left to count, so that the blank stands outside them and ends the token
    obtain rfl : q = false := by
      cases q with
      | false => rfl
      | true => cases h
    exact scan_gap ds hb
  | quote q cs ih =>
    rw [List.count_cons_self, parity_succ] at h
    rw [List.cons_append, scan_quote, scan_quote, ih h]
  | gap d cs hd ih =>
    rw [List.count_cons_of_ne (ne_quote_of_isBlank hd)] at h
    rw [List.cons_append, scan_gap _ hd, scan_gap _ hd, splitChars, splitChars, ih h]
    split <;> rfl
  | kept q c cs hc hkept ih =>
    rw [List.count_cons_of_ne hc] at h
    rw [List.cons_append, scan_kept _ hc hkept, scan_kept _ hc hkept, ih h]

/-- A blank behind a text whose quotes are closed separates its tokens from those behind the blank. -/
theorem splitChars_append_blank {b : Char} (hb : Text.isBlank b = true) {cs : List Char}
    (h : IsBalanced cs) (ds : List Char) :
    splitChars (cs ++ b :: ds) = splitChars cs ++ splitChars ds := by
  have hparts : ∀ es : List Char, splitChars es =
      if (scan false es).1.isEmpty then (scan false es).2
      else (scan false es).1 :: (scan false es).2 := fun _ => rfl
  rw [hparts (cs ++ b :: ds), hparts cs, scan_append_blank (q := false) hb h ds]
  dsimp only
  split <;> rfl

/-- Each part of a row falls apart as it would alone, if its quotes are closed. -/
theorem split_spaced_of_balanced {ts : List String} (h : ∀ t ∈ ts, IsBalanced t.toList) :
    split (Text.spaced ts) = ts.flatMap split := by
  induction ts with
  | nil => rfl
  | cons t ts ih =>
    have hrest := ih fun u hu => h u (List.mem_cons_of_mem _ hu)
    cases ts with
    | nil => simp [Text.spaced]
    | cons u us =>
      have hrow : (Text.spaced (t :: u :: us)).toList =
          t.toList ++ ' ' :: (Text.spaced (u :: us)).toList := by
        simp [Text.spaced, String.intercalate_cons_cons]
      rw [List.flatMap_cons, ← hrest, split, hrow,
        splitChars_append_blank Text.isBlank_space (h t List.mem_cons_self), List.map_append]
      rfl

/-- Blanks at the end of a balanced text are in none of its tokens. -/
theorem splitChars_trimEnd {cs : List Char} (h : IsBalanced cs) :
    splitChars (Text.trimEnd cs) = splitChars cs := by
  -- blanks are taken off at the end, one at a time
  induction cs using List.reverseRecOn with
  | nil => rfl
  | append_singleton cs c ih =>
    by_cases hc : Text.isBlank c = true
    · have hcs : IsBalanced cs := by
        rw [IsBalanced, List.count_append, List.count_singleton,
          if_neg (by simpa using ne_quote_of_isBlank hc)] at h
        exact h
      have htrim : Text.trimEnd (cs ++ [c]) = Text.trimEnd cs := by
        simp [Text.trimEnd, hc]
      have hsplit := splitChars_append_blank hc hcs []
      rw [htrim, ih hcs, hsplit]
      exact (List.append_nil _).symm
    · have htrim : Text.trimEnd (cs ++ [c]) = cs ++ [c] := by
        simp [Text.trimEnd, hc]
      rw [htrim]

theorem count_dropWhile_isBlank (cs : List Char) :
    (cs.dropWhile Text.isBlank).count '"' = cs.count '"' := by
  induction cs with
  | nil => rfl
  | cons c cs ih =>
    by_cases hc : Text.isBlank c = true
    · rw [List.dropWhile_cons_of_pos hc, ih, List.count_cons_of_ne (ne_quote_of_isBlank hc)]
    · rw [List.dropWhile_cons_of_neg hc]

/-- Blanks around a text whose quotes are closed do not count. -/
theorem splitChars_trim {cs : List Char} (h : IsBalanced cs) :
    splitChars (Text.trim cs) = splitChars cs := by
  have hdrop : IsBalanced (cs.dropWhile Text.isBlank) := by
    rwa [IsBalanced, count_dropWhile_isBlank]
  rw [Text.trim, splitChars_trimEnd hdrop, splitChars_dropWhile]

/-- The tokens of the body that a text alone makes up. -/
def bodyTokens (s : String) : List String :=
  split (String.ofList (Text.trim s.toList))

/-- Trimming a balanced body changes none of its tokens. -/
theorem bodyTokens_eq_split {s : String} (h : IsBalanced s.toList) : bodyTokens s = split s := by
  rw [bodyTokens, split, String.toList_ofList, splitChars_trim h, split]

/-- The tokens of a body, with one character between each two, are no longer than the body. -/
theorem length_bodyTokens (s : String) :
    ((bodyTokens s).map String.length).sum + (bodyTokens s).length ≤ s.length + 1 := by
  have hsplit := length_split (String.ofList (Text.trim s.toList))
  have htrim : (Text.trim s.toList).length ≤ s.toList.length :=
    (Text.trimEnd_isPrefix _).length_le.trans (List.dropWhile_suffix _).length_le
  rw [String.length_ofList] at hsplit
  rw [String.length_toList] at htrim
  rw [bodyTokens]
  omega

/-- A text whose quotes are closed and one that ends with no blank are split as they would be alone. -/
theorem bodyTokens_spaced {s t : String} (h : IsBalanced s.toList) (hne : t ≠ "")
    (hend : ∀ c ∈ t.toList.getLast?, Text.isBlank c = false) :
    bodyTokens (Text.spaced [s, t]) = bodyTokens s ++ split t := by
  have hrow : (Text.spaced [s, t]).toList = s.toList ++ ' ' :: t.toList := by
    simp [Text.spaced, String.intercalate_cons_cons]
  have htrim : Text.trim (s.toList ++ ' ' :: t.toList) =
      (s.toList ++ ' ' :: t.toList).dropWhile Text.isBlank := by
    refine Text.trim_eq_dropWhile fun c hc => hend c ?_
    rwa [List.append_cons, List.getLast?_append_of_ne_nil _ (toList_ne_nil hne)] at hc
  rw [bodyTokens_eq_split h, bodyTokens, split, String.toList_ofList, hrow, htrim,
    splitChars_dropWhile, splitChars_append_blank Text.isBlank_space h, List.map_append, split, split]

end Token

end RollMarkup
