import Mathlib
import RollMarkup.Proofs.Token.Layout

/-!
# Blanks in a body

Outside quotes a blank does nothing but end a token, so that how many there are is not seen in the
tokens; inside quotes it belongs to a token, and so does all that stands there
(`exists_infix_of_quoted`). The blanks at the ends of a body are no exception: the tokens of a body
without them are told by its tokens with them (`bodyTokens_congr`).
-/

namespace RollMarkup

namespace Text

/-- Blanks behind the end of a text do not count. -/
theorem trimEnd_append_of_blank {cs ds : List Char} (h : ∀ c ∈ ds, isBlank c = true) :
    trimEnd (cs ++ ds) = trimEnd cs := by
  rw [trimEnd, List.reverse_append, List.dropWhile_append_of_pos, trimEnd]
  exact fun c hc => h c (List.mem_reverse.mp hc)

/-- Of a text that ends in one with more than blanks, only that one loses the blanks at its end. -/
theorem trimEnd_append {cs ds : List Char} (h : ∃ c ∈ ds, isBlank c = false) :
    trimEnd (cs ++ ds) = cs ++ trimEnd ds := by
  obtain ⟨c, hc, hblank⟩ := h
  have hrest : ds.reverse.dropWhile isBlank ≠ [] := by
    rw [Ne, List.dropWhile_eq_nil_iff, not_forall]
    exact ⟨c, by simp [hc, hblank]⟩
  rw [trimEnd, List.reverse_append, List.dropWhile_append, if_neg (by simpa using hrest),
    List.reverse_append, List.reverse_reverse, trimEnd]

end Text

namespace Token

/-! ### Inside quotes -/

/-- Inside quotes every character but a quote is kept. -/
theorem scan_true_append {cs : List Char} (h : '"' ∉ cs) (ds : List Char) :
    scan true (cs ++ ds) = (cs ++ (scan true ds).1, (scan true ds).2) := by
  induction cs with
  | nil => rfl
  | cons c cs ih =>
    rw [List.mem_cons, not_or] at h
    rw [List.cons_append, scan_kept _ (Ne.symm h.1) rfl, ih h.2]
    rfl

/-- What is in the first token or in one behind it is in one of all tokens. -/
theorem exists_infix_splitChars {cs mid : List Char} (hne : mid ≠ [])
    (h : mid <:+: (scan false cs).1 ∨ ∃ t ∈ (scan false cs).2, mid <:+: t) :
    ∃ t ∈ splitChars cs, mid <:+: t := by
  rcases h with hfirst | ⟨t, ht, hin⟩
  · have hfilled : (scan false cs).1 ≠ [] := by
      intro hempty
      rw [hempty, List.infix_nil] at hfirst
      exact hne hfirst
    exact ⟨_, mem_splitChars_iff.mpr (.inl ⟨hfilled, rfl⟩), hfirst⟩
  · exact ⟨t, mem_splitChars_iff.mpr (.inr ht), hin⟩

/-- What stands inside quotes is in one token. `q` tells whether the text starts inside quotes, and
`cs` leads into them. -/
theorem exists_infix_scan {q : Bool} {cs mid : List Char} (h : cs.count '"' % 2 = (!q).toNat)
    (hmid : '"' ∉ mid) (hne : mid ≠ []) (ds : List Char) :
    mid <:+: (scan q (cs ++ mid ++ ds)).1 ∨ ∃ t ∈ (scan q (cs ++ mid ++ ds)).2, mid <:+: t := by
  have cons : ∀ {c : Char} {t : List Char}, mid <:+: t → mid <:+: c :: t :=
    fun ht => ht.trans (List.suffix_cons _ _).isInfix
  -- a quote turns the parity round, so that at the end of `cs` the scan is inside quotes
  induction q, cs using scan_induction with
  | nil q =>
    obtain rfl : q = true := by
      cases q with
      | false => cases h
      | true => rfl
    rw [List.nil_append, scan_true_append hmid]
    exact .inl (List.prefix_append _ _).isInfix
  | quote q cs ih =>
    rw [List.count_cons_self, parity_succ] at h
    rw [List.cons_append, List.cons_append, scan_quote]
    exact (ih h).imp_left cons
  | gap b cs hb ih =>
    -- a blank outside quotes ends the first token, and `mid` is in one behind it
    rw [List.count_cons_of_ne (ne_quote_of_isBlank hb)] at h
    rw [List.cons_append, List.cons_append, scan_gap _ hb]
    exact .inr (exists_infix_splitChars hne (ih h))
  | kept q c cs hc hkept ih =>
    rw [List.count_cons_of_ne hc] at h
    rw [List.cons_append, List.cons_append, scan_kept _ hc hkept]
    exact (ih h).imp_left cons

/-- What stands inside quotes is in one token. -/
theorem exists_infix_of_quoted {cs mid : List Char} (h : ¬ IsBalanced cs) (hmid : '"' ∉ mid)
    (hne : mid ≠ []) (ds : List Char) : ∃ t ∈ splitChars (cs ++ mid ++ ds), mid <:+: t := by
  have hodd : cs.count '"' % 2 = (!false).toNat := by
    rw [IsBalanced] at h
    rw [Bool.not_false, Bool.toNat_true]
    omega
  exact exists_infix_splitChars hne (exists_infix_scan hodd hmid hne ds)

/-! ### Tokens in their text -/

/-- Each token of a text stands in it as one stretch. -/
theorem FallsApart.isInfix {cs : List Char} {ts : List (List Char)} (h : FallsApart cs ts) :
    ∀ t ∈ ts, t <:+: cs := by
  induction h with
  | nil => simp
  | @blank b cs ts _ _ ih => exact fun t ht => (ih t ht).trans (List.suffix_cons b cs).isInfix
  | last _ =>
    intro t ht
    obtain rfl := List.mem_singleton.mp ht
    exact List.infix_rfl
  | @cons u cs b ts _ _ _ ih =>
    intro t ht
    rcases List.mem_cons.mp ht with rfl | ht
    · exact (List.prefix_append t (b :: cs)).isInfix
    · have hsuffix : cs <:+ u ++ b :: cs := ⟨u ++ [b], by simp⟩
      exact (ih t ht).trans hsuffix.isInfix

/-- A token stands in its text as it is. -/
theorem infix_of_mem_splitChars {cs t : List Char} (h : t ∈ splitChars cs) : t <:+: cs :=
  (fallsApart cs).isInfix t h

/-- Texts have the same tokens if these are spelt alike. -/
theorem splitChars_inj {s t : String} :
    splitChars s.toList = splitChars t.toList ↔ split s = split t := by
  have hinj : Function.Injective String.ofList := fun a b h => by simpa using congrArg String.toList h
  exact (List.map_inj_right fun _ _ h => hinj h).symm

/-- The tokens of a row of whole tokens, as characters. -/
theorem splitChars_spaced {ts : List String} (h : ∀ t ∈ ts, IsWhole t) :
    splitChars (Text.spaced ts).toList = ts.map String.toList := by
  have hsplit := congrArg (List.map String.toList) (split_spaced h)
  rw [split, List.map_map] at hsplit
  simpa [Function.comp_def] using hsplit

/-! ### At the ends -/

/-- A token holds more than blanks. -/
theorem exists_not_blank_of_mem_split {body t : String} (ht : t ∈ split body) :
    ∃ c ∈ t.toList, Text.isBlank c = false := by
  by_cases hq : '"' ∈ t.toList
  · exact ⟨'"', hq, isBlank_quote⟩
  · obtain ⟨hne, hcloses⟩ := isWhole_of_mem_split ht hq
    obtain ⟨c, cs, hcs⟩ := List.exists_cons_of_ne_nil (toList_ne_nil hne)
    refine ⟨c, by rw [hcs]; exact List.mem_cons_self, ?_⟩
    exact isBlank_head_of_closes hcloses (by rw [hcs]; rfl)

/-- Behind the last token there are only blanks, and what is put in its place comes apart as it would
alone. -/
theorem FallsApart.exists_last {cs t : List Char} {ts us : List (List Char)} (h : FallsApart cs us)
    (hne : ∀ u ∈ us, u ≠ []) (hus : us = ts ++ [t]) :
    ∃ before behind, cs = before ++ t ++ behind ∧ (∀ c ∈ behind, Text.isBlank c = true) ∧
      ∀ ds, splitChars (before ++ ds) = ts ++ splitChars ds := by
  induction h generalizing ts with
  | nil => simp at hus
  | @blank b cs us hb _ ih =>
    obtain ⟨before, behind, rfl, hbehind, hsplit⟩ := ih hne hus
    refine ⟨b :: before, behind, rfl, hbehind, fun ds => ?_⟩
    rw [List.cons_append, splitChars_cons_blank hb, hsplit]
  | last _ =>
    obtain ⟨rfl, ht⟩ := List.append_eq_singleton_iff.mp hus.symm |>.resolve_right (by simp)
    obtain rfl := List.singleton_inj.mp ht
    exact ⟨[], [], by simp, by simp, fun _ => rfl⟩
  | @cons u cs b us hu hb hcs ih =>
    have hsplit : ∀ ds, splitChars (u ++ b :: ds) = u :: splitChars ds := by
      intro ds
      rw [splitChars_append_blank hb (isBalanced_of_closes hu),
        splitChars_of_closes (hne u List.mem_cons_self) hu, List.singleton_append]
    rcases ts with _ | ⟨v, vs⟩
    · -- the last token is this one, and what is behind it falls apart into nothing
      obtain ⟨rfl, rfl⟩ := List.cons.inj hus
      refine ⟨[], b :: cs, by simp, fun c hc => ?_, fun _ => rfl⟩
      rcases List.mem_cons.mp hc with rfl | hc
      · exact hb
      · exact hcs.isBlank rfl c hc
    · obtain ⟨rfl, rfl⟩ := List.cons.inj hus
      obtain ⟨before, behind, rfl, hbehind, hrest⟩ :=
        ih (fun w hw => hne w (List.mem_cons_of_mem _ hw)) rfl
      refine ⟨u ++ b :: before, behind, by simp, hbehind, fun ds => ?_⟩
      rw [List.append_assoc, List.cons_append, hsplit, hrest, List.cons_append]

/-- Without the blanks at its ends, a body has the same tokens, but for those at the end of the last. -/
theorem bodyTokens_of_split {s t : String} {ts : List String} (h : split s = ts ++ [t]) :
    bodyTokens s = ts ++ split (String.ofList (Text.trimEnd t.toList)) := by
  have hchars : splitChars (s.toList.dropWhile Text.isBlank) =
      ts.map String.toList ++ [t.toList] := by
    have hmap := congrArg (List.map String.toList) h
    rw [split, List.map_map] at hmap
    rw [splitChars_dropWhile]
    simpa [Function.comp_def] using hmap
  have hne : ∀ u ∈ splitChars (s.toList.dropWhile Text.isBlank), u ≠ [] := by
    intro u hu
    rw [splitChars_dropWhile] at hu
    have hmem : String.ofList u ∈ split s := List.mem_map_of_mem hu
    simpa using toList_ne_nil (ne_empty_of_mem_split hmem)
  obtain ⟨before, behind, hbody, hbehind, hsplit⟩ :=
    (fallsApart (s.toList.dropWhile Text.isBlank)).exists_last hne hchars
  have hlast : t ∈ split s := by rw [h]; simp
  have hfilled := exists_not_blank_of_mem_split hlast
  rw [bodyTokens, split, split, String.toList_ofList, String.toList_ofList, Text.trim, hbody,
    Text.trimEnd_append_of_blank hbehind, Text.trimEnd_append hfilled, hsplit, List.map_append,
    List.map_map]
  simp [Function.comp_def]

/-- Bodies with the same tokens have the same tokens without the blanks at their ends. -/
theorem bodyTokens_congr {s t : String} (h : split s = split t) : bodyTokens s = bodyTokens t := by
  rcases List.eq_nil_or_concat (split s) with hs | ⟨ts, u, hs⟩
  · have hnone : ∀ {r : String}, split r = [] → bodyTokens r = [] := by
      intro r hr
      have hblank : r.toList.dropWhile Text.isBlank = [] :=
        List.dropWhile_eq_nil_iff.mpr (isBlank_of_split hr)
      rw [bodyTokens, Text.trim, hblank]
      rfl
    rw [hnone hs, hnone (h ▸ hs)]
  · rw [List.concat_eq_append] at hs
    rw [bodyTokens_of_split hs, bodyTokens_of_split (h ▸ hs)]

end Token

end RollMarkup
