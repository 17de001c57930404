import Mathlib
import RollMarkup.Body.Token
import RollMarkup.Proofs.Text.Trimmed
import RollMarkup.Text.Cut

/-!
# Splitting a row of tokens

`split_spaced` says that tokens with single spaces between them are split into the same tokens again,
and `trim_spaced` that no blank stands at either end of such a row. Both need of each token that it
is whole: that it has no blank outside its quotes and ends outside of them. What the splitter does with
one character is said once, by the cases of `scan_induction`.
-/

namespace RollMarkup

namespace Token

/-! ### Whole tokens -/

/-- Whether a text ends outside quotes and has no blank outside them. `inQuotes` tells whether it
starts inside. -/
def closes (inQuotes : Bool) : List Char → Bool
  | [] => !inQuotes
  | c :: cs =>
    if c = '"' then closes (!inQuotes) cs
    else (inQuotes || !Text.isBlank c) && closes inQuotes cs

/-- A token that stays in one piece when a body is split. -/
def IsWhole (token : String) : Prop :=
  token ≠ "" ∧ closes false token.toList = true

/-- A word can stand without quotes: nothing in it ends a token, opens quotes or ends a key. -/
def IsWord (s : String) : Prop :=
  s ≠ "" ∧ ∀ c ∈ s.toList, Text.isBlank c = false ∧ c ≠ '=' ∧ c ≠ '"'

instance (s : String) : Decidable (IsWord s) :=
  decidable_of_iff (s ≠ "" ∧ s.toList.all fun c => !Text.isBlank c && c != '=' && c != '"') (by
    simp [IsWord, and_assoc])

/-- A solid text stands in a command as one token, with no quotes around it. -/
def IsSolid (s : String) : Prop :=
  s ≠ "" ∧ ∀ c ∈ s.toList, Text.isBlank c = false ∧ c ≠ '"' ∧ c ≠ ']'

instance (s : String) : Decidable (IsSolid s) :=
  decidable_of_iff (s ≠ "" ∧ s.toList.all fun c => !Text.isBlank c && c != '"' && c != ']') (by
    simp [IsSolid, and_assoc])

instance (s : String) : Decidable (IsWhole s) :=
  inferInstanceAs (Decidable (s ≠ "" ∧ closes false s.toList = true))

/-- A plain word can also stand in a list with slashes and in brackets. -/
def IsPlain (s : String) : Prop :=
  IsWord s ∧ '/' ∉ s.toList ∧ ']' ∉ s.toList

instance (s : String) : Decidable (IsPlain s) :=
  inferInstanceAs (Decidable (IsWord s ∧ '/' ∉ s.toList ∧ ']' ∉ s.toList))

theorem IsPlain.not_mem {s : String} (h : IsPlain s) {x : Char} (hx : x = '"' ∨ x = ']') :
    x ∉ s.toList := by
  rcases hx with rfl | rfl
  · exact fun hc => (h.1.2 _ hc).2.2 rfl
  · exact h.2.2

/-- A text can stand between quotes in a command: nothing in it ends the quotes or the command. -/
def IsQuotable (s : String) : Prop :=
  '"' ∉ s.toList ∧ ']' ∉ s.toList

instance (s : String) : Decidable (IsQuotable s) :=
  inferInstanceAs (Decidable ('"' ∉ s.toList ∧ ']' ∉ s.toList))

theorem IsQuotable.not_mem {s : String} (h : IsQuotable s) {x : Char} (hx : x = '"' ∨ x = ']') :
    x ∉ s.toList := by
  rcases hx with rfl | rfl
  · exact h.1
  · exact h.2

/-- A plain word can stand between quotes. -/
theorem IsPlain.isQuotable {s : String} (h : IsPlain s) : IsQuotable s :=
  ⟨h.not_mem (.inl rfl), h.not_mem (.inr rfl)⟩

/-- A word can stand between quotes if it does not end the command. -/
theorem IsWord.isQuotable {s : String} (h : IsWord s) (closed : ']' ∉ s.toList) : IsQuotable s :=
  ⟨fun hc => (h.2 _ hc).2.2 rfl, closed⟩

/-- A solid text can stand between quotes. -/
theorem IsSolid.isQuotable {s : String} (h : IsSolid s) : IsQuotable s :=
  ⟨fun hc => (h.2 _ hc).2.1 rfl, fun hc => (h.2 _ hc).2.2 rfl⟩

/-! ### One character at a time -/

theorem isBlank_quote : Text.isBlank '"' = false := by decide

theorem ne_quote_of_isBlank {b : Char} (h : Text.isBlank b = true) : b ≠ '"' := by
  rintro rfl
  exact absurd h (by decide)

/-- A text is scanned character by character: a quote changes sides, a blank outside quotes ends a token,
and any other character stays in its token. -/
@[elab_as_elim]
theorem scan_induction {motive : Bool → List Char → Prop} (nil : ∀ q, motive q [])
    (quote : ∀ q cs, motive (!q) cs → motive q ('"' :: cs))
    (gap : ∀ b cs, Text.isBlank b = true → motive false cs → motive false (b :: cs))
    (kept : ∀ q c cs, c ≠ '"' → (q || !Text.isBlank c) = true → motive q cs → motive q (c :: cs))
    (q : Bool) (cs : List Char) : motive q cs := by
  induction cs generalizing q with
  | nil => exact nil q
  | cons c cs ih =>
    by_cases hc : c = '"'
    · subst hc
      exact quote q cs (ih _)
    · by_cases hkept : (q || !Text.isBlank c) = true
      · exact kept q c cs hc hkept (ih q)
      · obtain ⟨hq, hb⟩ := Bool.or_eq_false_iff.mp (Bool.eq_false_iff.mpr hkept)
        subst hq
        exact gap c cs (by simpa using hb) (ih false)

section

variable {q : Bool} {b c : Char} (cs : List Char)

/-- A quote changes sides. -/
theorem closes_quote : closes q ('"' :: cs) = closes (!q) cs := by
  simp [closes]

/-- A text that starts with a blank outside quotes does not close. -/
theorem closes_gap (h : Text.isBlank b = true) : closes false (b :: cs) = false := by
  simp [closes, h, ne_quote_of_isBlank h]

/-- Any other character changes nothing about whether a text closes. -/
theorem closes_kept (hc : c ≠ '"') (h : (q || !Text.isBlank c) = true) :
    closes q (c :: cs) = closes q cs := by
  rw [closes, if_neg hc, h, Bool.true_and]

/-- A quote stays in its token, and the scan goes on from the other side of it. -/
theorem scan_quote : scan q ('"' :: cs) = ('"' :: (scan (!q) cs).1, (scan (!q) cs).2) := by
  simp [scan]

/-- A blank outside quotes ends the first token. -/
theorem scan_gap (h : Text.isBlank b = true) : scan false (b :: cs) = ([], splitChars cs) := by
  simp [scan, splitChars, h, ne_quote_of_isBlank h]

/-- Any other character stays in its token. -/
theorem scan_kept (hc : c ≠ '"') (h : (q || !Text.isBlank c) = true) :
    scan q (c :: cs) = (c :: (scan q cs).1, (scan q cs).2) := by
  have hends : (Text.isBlank c && !q) = false := by
    revert h
    cases q <;> cases Text.isBlank c <;> decide
  simp only [scan, hc, if_false, hends, Bool.false_eq_true]

end

/-- A token is the first one, if that is not empty, or one of those behind it. -/
theorem mem_splitChars_iff {cs t : List Char} :
    t ∈ splitChars cs ↔ t ≠ [] ∧ t = (scan false cs).1 ∨ t ∈ (scan false cs).2 := by
  rw [splitChars]
  split
  next hempty =>
    rw [List.isEmpty_iff] at hempty
    refine ⟨.inr, ?_⟩
    rintro (⟨hne, rfl⟩ | h)
    · exact absurd hempty hne
    · exact h
  next hempty =>
    rw [List.isEmpty_iff] at hempty
    rw [List.mem_cons]
    refine or_congr_left ⟨?_, And.right⟩
    rintro rfl
    exact ⟨hempty, rfl⟩

/-- What stands behind a text that closes closes as it would alone. -/
theorem closes_append {q : Bool} {cs ds : List Char} (hcs : closes q cs = true) :
    closes q (cs ++ ds) = closes false ds := by
  -- each quote changes sides, so that the induction has to hold on both of them
  induction q, cs using scan_induction with
  | nil q =>
    obtain rfl : q = false := by simpa [closes] using hcs
    rfl
  | quote q cs ih =>
    rw [closes_quote] at hcs
    rw [List.cons_append, closes_quote, ih hcs]
  | gap b cs hb ih =>
    rw [closes_gap cs hb] at hcs
    cases hcs
  | kept q c cs hc hkept ih =>
    rw [closes_kept cs hc hkept] at hcs
    rw [List.cons_append, closes_kept _ hc hkept, ih hcs]

/-- Without quotes, a text closes where it starts outside quotes and holds no blank. -/
theorem closes_of_no_quote {cs : List Char}
    (h : ∀ c ∈ cs, Text.isBlank c = false ∧ c ≠ '"') : closes false cs = true := by
  induction cs with
  | nil => rfl
  | cons c cs ih =>
    have hc := h c List.mem_cons_self
    rw [closes_kept cs hc.2 (by simp [hc.1])]
    exact ih fun d hd => h d (List.mem_cons_of_mem _ hd)

/-- Inside quotes any text without a quote may stand, up to the quote that ends it. -/
theorem closes_quoted {cs : List Char} (h : '"' ∉ cs) : closes true (cs ++ ['"']) = true := by
  induction cs with
  | nil => rfl
  | cons c cs ih =>
    rw [List.mem_cons, not_or] at h
    rw [List.cons_append, closes_kept _ (Ne.symm h.1) rfl]
    exact ih h.2

/-- A solid text is one token. -/
theorem IsSolid.isWhole {s : String} (h : IsSolid s) : IsWhole s :=
  ⟨h.1, closes_of_no_quote fun c hc => ⟨(h.2 c hc).1, (h.2 c hc).2.1⟩⟩

/-- A word is one token. -/
theorem IsWord.isWhole {s : String} (h : IsWord s) : IsWhole s :=
  ⟨h.1, closes_of_no_quote fun c hc => ⟨(h.2 c hc).1, (h.2 c hc).2.2⟩⟩

/-! ### Splitting -/

/-- The scan of a text that closes goes on behind it as it would start there. -/
theorem scan_append {q : Bool} {cs : List Char} (h : closes q cs = true) (rest : List Char) :
    scan q (cs ++ rest) = (cs ++ (scan false rest).1, (scan false rest).2) := by
  induction q, cs using scan_induction with
  | nil q =>
    obtain rfl : q = false := by simpa [closes] using h
    rfl
  | quote q cs ih =>
    rw [closes_quote] at h
    rw [List.cons_append, scan_quote, ih h, List.cons_append]
  | gap b cs hb ih =>
    rw [closes_gap cs hb] at h
    cases h
  | kept q c cs hc hkept ih =>
    rw [closes_kept cs hc hkept] at h
    rw [List.cons_append, scan_kept _ hc hkept, ih h, List.cons_append]

/-- A text that closes is one token. -/
theorem splitChars_of_closes {cs : List Char} (hne : cs ≠ []) (h : closes false cs = true) :
    splitChars cs = [cs] := by
  have hs := scan_append h []
  rw [List.append_nil] at hs
  simp [splitChars, hs, scan, hne]

/-- A text that closes is the first token where a space follows it. -/
theorem splitChars_append_space {cs : List Char} (hne : cs ≠ []) (h : closes false cs = true)
    (rest : List Char) : splitChars (cs ++ ' ' :: rest) = cs :: splitChars rest := by
  simp [splitChars, scan_append h, scan_gap rest Text.isBlank_space, hne]

/-- Texts that close and are not empty are split again where spaces join them. -/
theorem splitChars_intercalate {ts : List (List Char)}
    (h : ∀ t ∈ ts, t ≠ [] ∧ closes false t = true) : splitChars ([' '].intercalate ts) = ts := by
  induction ts with
  | nil => rfl
  | cons t ts ih =>
    have ht := h t List.mem_cons_self
    have hts := ih fun u hu => h u (List.mem_cons_of_mem _ hu)
    cases ts with
    | nil => simpa using splitChars_of_closes ht.1 ht.2
    | cons u us =>
      rw [List.intercalate_cons_cons]
      simpa [hts] using splitChars_append_space ht.1 ht.2 ([' '].intercalate (u :: us))

theorem toList_spaced (ts : List String) :
    (Text.spaced ts).toList = [' '].intercalate (ts.map String.toList) := by
  simp [Text.spaced]

theorem intercalate_ne_nil {α : Type} {sep t : List α} (h : t ≠ []) (ts : List (List α)) :
    sep.intercalate (t :: ts) ≠ [] := by
  cases ts <;> simp [List.intercalate_cons_cons, h]

/-- What is in a joined list is in the separator or in one of the parts. -/
theorem mem_of_mem_intercalate {α : Type} {x : α} {sep : List α} {ls : List (List α)}
    (h : x ∈ sep.intercalate ls) : x ∈ sep ∨ ∃ l ∈ ls, x ∈ l := by
  induction ls with
  | nil => cases h
  | cons l ls ih =>
    cases ls with
    | nil => exact .inr ⟨l, by simp, by simpa using h⟩
    | cons m ms =>
      rw [List.intercalate_cons_cons, List.mem_append, List.mem_append] at h
      rcases h with (h | h) | h
      · exact .inr ⟨l, by simp, h⟩
      · exact .inl h
      · rcases ih h with h | ⟨k, hk, hx⟩
        · exact .inl h
        · exact .inr ⟨k, List.mem_cons_of_mem _ hk, hx⟩

theorem mem_intercalate_of_mem {α : Type} {x : α} {sep l : List α} {ls : List (List α)}
    (hl : l ∈ ls) (hx : x ∈ l) : x ∈ sep.intercalate ls := by
  induction ls with
  | nil => cases hl
  | cons m ms ih =>
    cases ms with
    | nil =>
      obtain rfl := List.mem_singleton.mp hl
      rwa [List.intercalate_singleton]
    | cons k ks =>
      rw [List.intercalate_cons_cons]
      rcases List.mem_cons.mp hl with rfl | hl
      · exact List.mem_append_left _ (List.mem_append_left _ hx)
      · exact List.mem_append_right _ (ih hl)

/-- The characters of a joined text are those of the separator and those of its parts. -/
theorem not_mem_intercalate {x : Char} {sep : String} (hsep : x ∉ sep.toList) {ts : List String}
    (h : ∀ t ∈ ts, x ∉ t.toList) : x ∉ (sep.intercalate ts).toList := by
  rw [String.toList_intercalate]
  intro hc
  rcases mem_of_mem_intercalate hc with hc | ⟨l, hl, hc⟩
  · exact hsep hc
  · obtain ⟨t, ht, rfl⟩ := List.mem_map.mp hl
    exact h t ht hc

/-- A row of words holds nothing but the characters of its words and spaces. -/
theorem not_mem_spaced {x : Char} (hx : x ≠ ' ') {ws : List String}
    (h : ∀ w ∈ ws, x ∉ w.toList) : x ∉ (Text.spaced ws).toList :=
  not_mem_intercalate (fun hc => hx (List.mem_singleton.mp hc)) h

/-- Quotable texts are quotable when they are joined by spaces. -/
theorem isQuotable_spaced {ws : List String} (h : ∀ w ∈ ws, IsQuotable w) :
    IsQuotable (Text.spaced ws) :=
  ⟨not_mem_spaced (by decide) fun w hw => (h w hw).1,
    not_mem_spaced (by decide) fun w hw => (h w hw).2⟩

theorem toList_ne_nil {s : String} (h : s ≠ "") : s.toList ≠ [] := by
  simpa using h

/-- Whole tokens with single spaces between them are split into the same tokens again. -/
theorem split_spaced {ts : List String} (h : ∀ t ∈ ts, IsWhole t) :
    split (Text.spaced ts) = ts := by
  have hts : ∀ t ∈ ts.map String.toList, t ≠ [] ∧ closes false t = true := by
    intro t ht
    obtain ⟨s, hs, rfl⟩ := List.mem_map.mp ht
    exact ⟨toList_ne_nil (h s hs).1, (h s hs).2⟩
  rw [split, toList_spaced, splitChars_intercalate hts, List.map_map]
  simp [Function.comp_def]

/-- No whole token is empty, so that all of them are written. -/
theorem filter_whole {ts : List String} (h : ∀ t ∈ ts, IsWhole t) : ts.filter (· ≠ "") = ts := by
  rw [List.filter_eq_self]
  intro t ht
  exact decide_eq_true (h t ht).1

/-- A row of words may stand in front of a row as one part. -/
theorem spaced_cons_spaced {ws : List String} (h : ws ≠ []) (ts : List String) :
    Text.spaced (Text.spaced ws :: ts) = Text.spaced (ws ++ ts) := by
  cases ts with
  | nil => simp [Text.spaced]
  | cons t ts =>
    unfold Text.spaced
    rw [String.intercalate_append_of_ne_nil h (by simp), String.intercalate_cons_cons]

theorem spaced_ne_empty {w : String} (h : w ≠ "") (ws : List String) :
    Text.spaced (w :: ws) ≠ "" := by
  intro he
  have hl := congrArg String.toList he
  rw [toList_spaced, List.map_cons] at hl
  exact intercalate_ne_nil (toList_ne_nil h) _ hl

/-- What stands behind a row goes on in the same way, however the row is divided. -/
theorem spaced_append {ts us : List String} (hts : ∀ t ∈ ts, t ≠ "") (hus : ∀ u ∈ us, u ≠ "")
    (h : Text.spaced ts = Text.spaced us) (vs : List String) :
    Text.spaced (ts ++ vs) = Text.spaced (us ++ vs) := by
  rcases ts with _ | ⟨t, ts⟩ <;> rcases us with _ | ⟨u, us⟩
  · rfl
  · exact absurd h.symm (spaced_ne_empty (hus u List.mem_cons_self) us)
  · exact absurd h (spaced_ne_empty (hts t List.mem_cons_self) ts)
  · rw [← spaced_cons_spaced (List.cons_ne_nil t ts), ← spaced_cons_spaced (List.cons_ne_nil u us), h]

/-- A row of words, or nothing where there are none, may stand in front of a row as one part. -/
theorem spaced_filter_cons {ws ts : List String} (hws : ∀ w ∈ ws, IsWhole w)
    (hts : ∀ t ∈ ts, IsWhole t) :
    Text.spaced ((Text.spaced ws :: ts).filter (· ≠ "")) = Text.spaced (ws ++ ts) := by
  cases ws with
  | nil =>
    have hempty : Text.spaced [] = "" := rfl
    rw [hempty, List.filter_cons_of_neg (by simp), filter_whole hts, List.nil_append]
  | cons w ws =>
    have hne := spaced_ne_empty (hws w List.mem_cons_self).1 ws
    rw [List.filter_cons_of_pos (by simpa using hne), filter_whole hts,
      spaced_cons_spaced (List.cons_ne_nil w ws)]

/-! ### Blanks at the ends -/

/-- A text that closes does not end with a blank: that blank would be inside quotes. -/
theorem isBlank_getLast_of_closes {q : Bool} {cs : List Char} {c : Char}
    (h : closes q cs = true) (hc : cs.getLast? = some c) : Text.isBlank c = false := by
  -- the last character is told by the text behind the first one, unless it is the first one itself
  have hlast : ∀ {d : Char} {ds : List Char}, (d :: ds).getLast? = some c →
      ds = [] ∧ d = c ∨ ds.getLast? = some c := by
    intro d ds hd
    cases ds with
    | nil => exact .inl ⟨rfl, by simpa using hd⟩
    | cons e es => exact .inr (by simpa using hd)
  induction q, cs using scan_induction with
  | nil q => cases hc
  | quote q cs ih =>
    rw [closes_quote] at h
    rcases hlast hc with ⟨-, rfl⟩ | hc
    · exact isBlank_quote
    · exact ih h hc
  | gap b cs hb ih =>
    rw [closes_gap cs hb] at h
    cases h
  | kept q d cs hd hkept ih =>
    rw [closes_kept cs hd hkept] at h
    rcases hlast hc with ⟨rfl, rfl⟩ | hc
    · obtain rfl : q = false := by simpa [closes] using h
      simpa using hkept
    · exact ih h hc

/-- A text that closes does not start with a blank. -/
theorem isBlank_head_of_closes {cs : List Char} {c : Char}
    (h : closes false cs = true) (hc : cs.head? = some c) : Text.isBlank c = false := by
  cases cs with
  | nil => cases hc
  | cons d ds =>
    obtain rfl : d = c := by simpa using hc
    refine Bool.eq_false_iff.mpr fun hb => ?_
    rw [closes_gap ds hb] at h
    cases h

/-- A joined list starts as its first part does. -/
theorem head?_intercalate {α : Type} {sep : List α} {ts : List (List α)} (h : ∀ t ∈ ts, t ≠ []) :
    (sep.intercalate ts).head? = ts.head?.bind List.head? := by
  cases ts with
  | nil => rfl
  | cons t ts =>
    have ht : t ≠ [] := h t List.mem_cons_self
    cases ts with
    | nil => simp
    | cons u us => simp [List.intercalate_cons_cons, List.head?_append_of_ne_nil _ ht]

/-- A joined list ends as its last part does. -/
theorem getLast?_intercalate {α : Type} {sep : List α} {ts : List (List α)}
    (h : ∀ t ∈ ts, t ≠ []) : (sep.intercalate ts).getLast? = ts.getLast?.bind List.getLast? := by
  induction ts with
  | nil => rfl
  | cons t ts ih =>
    have hts := ih fun u hu => h u (List.mem_cons_of_mem _ hu)
    cases ts with
    | nil => simp
    | cons u us =>
      have hu : u ≠ [] := h u (by simp)
      rw [List.intercalate_cons_cons, List.getLast?_append_of_ne_nil _ (intercalate_ne_nil hu us), hts,
        List.getLast?_cons_cons]

/-- No blank stands at either end of a row of whole tokens. -/
theorem trim_spaced {ts : List String} (h : ∀ t ∈ ts, IsWhole t) :
    Text.trim (Text.spaced ts).toList = (Text.spaced ts).toList := by
  have hne : ∀ t ∈ ts.map String.toList, t ≠ [] := by
    intro t ht
    obtain ⟨s, hs, rfl⟩ := List.mem_map.mp ht
    exact toList_ne_nil (h s hs).1
  rw [toList_spaced]
  apply Text.trim_eq_self
  constructor
  · intro c hc
    rw [head?_intercalate hne, List.head?_map] at hc
    obtain ⟨t, ht, hc⟩ := Option.bind_eq_some_iff.mp hc
    obtain ⟨s, hs, rfl⟩ := Option.map_eq_some_iff.mp ht
    exact isBlank_head_of_closes (h s (List.mem_of_head? hs)).2 hc
  · intro c hc
    rw [getLast?_intercalate hne, List.getLast?_map] at hc
    obtain ⟨t, ht, hc⟩ := Option.bind_eq_some_iff.mp hc
    obtain ⟨s, hs, rfl⟩ := Option.map_eq_some_iff.mp ht
    exact isBlank_getLast_of_closes (h s (List.mem_of_getLast? hs)).2 hc

end Token

end RollMarkup
