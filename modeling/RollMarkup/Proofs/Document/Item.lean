import Mathlib
import RollMarkup.Proofs.Document.Names
import RollMarkup.Proofs.Token.Layout

/-!
# Item links of a document

The canonical text of an item link is always found as an item link, and it points at the same item and
activity exactly if it tells one from the other (`first?_canonical_item`). A name does not, if the
activity behind it is a word that needs no quotes (`canonical_not_same_item`).
-/

namespace RollMarkup

namespace Item

variable {i : Item} {id w a : String} {ws : List String}

/-! ### What tells an item from its activity -/

/-- Whether these tokens of a body name the item `id`, with single spaces between them: an identifier
alone, or other tokens of which none is in quotes. -/
def IsName (id w : String) (ws : List String) : Prop :=
  id = Text.spaced (w :: ws) ∧ if isIdentifier w then ws = [] else ∀ v ∈ w :: ws, isQuoted v = false

/-- Whether an activity is known as one behind tokens that begin with `w`. In quotes it has to stay in
one piece. Without them it has to follow an identifier, and to have no quotes of its own. -/
def IsKnownBehind (w a : String) : Prop :=
  if Token.needsQuotes a then Token.split (Token.ofValue a) = [Token.ofValue a]
  else isIdentifier w = true ∧ isQuoted a = false

instance (id w : String) (ws : List String) : Decidable (IsName id w ws) :=
  inferInstanceAs (Decidable (id = Text.spaced (w :: ws) ∧
    if isIdentifier w then ws = [] else ∀ v ∈ w :: ws, isQuoted v = false))

instance (w a : String) : Decidable (IsKnownBehind w a) :=
  inferInstanceAs (Decidable (if Token.needsQuotes a then
    Token.split (Token.ofValue a) = [Token.ofValue a] else isIdentifier w = true ∧ isQuoted a = false))

/-- Whether the canonical text of an item link tells the item from the activity. -/
def IsToldApart (i : Item) : Prop :=
  match i.identifier? with
  | none => Text.filled i.activity = none
  | some id => ∃ w ws, Token.bodyTokens id = w :: ws ∧ IsName id w ws ∧
      ∀ a ∈ Text.filled i.activity, IsKnownBehind w a

/-- Where nothing names an item, it is told from the activity if there is none. -/
theorem isToldApart_of_none (hid : i.identifier? = none) :
    i.IsToldApart ↔ Text.filled i.activity = none := by
  rw [IsToldApart, hid]

/-- Where a text names an item, its tokens decide whether it is told from the activity. -/
theorem isToldApart_iff (hid : i.identifier? = some id) (hsplit : Token.bodyTokens id = w :: ws) :
    i.IsToldApart ↔ IsName id w ws ∧ ∀ a ∈ Text.filled i.activity, IsKnownBehind w a := by
  rw [IsToldApart, hid]
  constructor
  · rintro ⟨v, vs, hv, told⟩
    obtain ⟨rfl, rfl⟩ := List.cons.inj (hsplit.symm.trans hv)
    exact told
  · exact fun told => ⟨w, ws, hsplit, told⟩

/-- Blanks alone name no item. -/
theorem not_isToldApart (hid : i.identifier? = some id) (hsplit : Token.bodyTokens id = []) :
    ¬i.IsToldApart := by
  rw [IsToldApart, hid]
  rintro ⟨w, ws, h, -⟩
  rw [hsplit] at h
  cases h

/-! ### The item -/

/-- The value of a token is no longer than the token. -/
theorem length_toValue_le (t : String) : (Token.toValue t).length ≤ t.length := by
  cases hq : isQuoted t with
  | false => rw [toValue_of_not_isQuoted hq]
  | true =>
    obtain ⟨v, rfl⟩ := isQuoted_iff.mp hq
    rw [Token.toValue_quoted, String.length_append, String.length_append]
    omega

/-- The value of a quoted token is shorter than the token. -/
theorem length_toValue_lt {t : String} (h : isQuoted t = true) :
    (Token.toValue t).length < t.length := by
  obtain ⟨v, rfl⟩ := isQuoted_iff.mp h
  have hquote : "\"".length = 1 := rfl
  rw [Token.toValue_quoted, String.length_append, String.length_append]
  omega

/-- Values that are as long as their tokens are those tokens. -/
theorem not_isQuoted_of_length {ts : List String} (hne : ts ≠ [])
    (h : (ts.map String.length).sum + ts.length ≤ (valueText ts).length + 1) :
    ∀ t ∈ ts, isQuoted t = false := by
  by_contra hquoted
  push Not at hquoted
  obtain ⟨t, ht, hq⟩ := hquoted
  have hshort : (ts.map fun u => (Token.toValue u).length).sum < (ts.map String.length).sum :=
    List.sum_lt_sum _ _ (fun u _ => length_toValue_le u)
      ⟨t, ht, length_toValue_lt (by simpa using hq)⟩
  have hvalue := Token.length_spaced (show ts.map Token.toValue ≠ [] by simpa using hne)
  rw [List.map_map, List.length_map] at hvalue
  have hsum : (ts.map (String.length ∘ Token.toValue)).sum =
      (ts.map fun u => (Token.toValue u).length).sum := rfl
  rw [valueText] at h
  omega

theorem ne_empty_of_bodyTokens (hsplit : Token.bodyTokens id = w :: ws) : w ≠ "" := by
  have hmem : w ∈ Token.bodyTokens id := by
    rw [hsplit]
    exact List.mem_cons_self
  exact Token.ne_empty_of_mem_split hmem

/-- A token that is all of the item leaves nothing to other tokens. -/
theorem eq_nil_of_bodyTokens (hsplit : Token.bodyTokens w = w :: ws) : ws = [] := by
  have hlength := Token.length_bodyTokens w
  rw [hsplit, List.map_cons, List.sum_cons, List.length_cons] at hlength
  exact List.eq_nil_of_length_eq_zero (by omega)

/-- A plain identifier is not quoted. -/
theorem not_isQuoted_of_isPlainId {t : String} (h : isPlainId t = true) : isQuoted t = false := by
  refine isQuoted_of_no_quote fun hq => ?_
  have hall := List.all_eq_true.mp (Bool.and_eq_true_iff.mp h).2 _ hq
  revert hall
  decide

/-- What is read of the tokens of the item is the item if and only if they name it. -/
theorem identifier?_iff (hsplit : Token.bodyTokens id = w :: ws) (hne : id ≠ "")
    (activity : Option String) :
    (ofTokens activity (w :: ws)).identifier? = some id ↔ IsName id w ws := by
  have hw := ne_empty_of_bodyTokens hsplit
  have hone : Text.spaced [w] = w := String.intercalate_singleton
  rw [identifier?_ofTokens hw, IsName]
  by_cases hid : isIdentifier w = true
  · rw [if_pos (.inl hid), if_pos hid, Option.some_inj]
    constructor
    · rintro rfl
      obtain rfl := eq_nil_of_bodyTokens hsplit
      exact ⟨hone.symm, rfl⟩
    · rintro ⟨rfl, rfl⟩
      exact hone.symm
  · rw [if_neg hid]
    by_cases hlone : ws = [] ∧ isPlainId w = true
    · obtain ⟨rfl, hplain⟩ := hlone
      rw [if_pos (.inr ⟨rfl, hplain⟩), Option.some_inj, hone]
      exact ⟨fun h => ⟨h.symm, by simpa using not_isQuoted_of_isPlainId hplain⟩, fun h => h.1.symm⟩
    · rw [if_neg (by simpa [hid] using hlone)]
      show Text.filled (some (valueText (w :: ws))) = some id ↔ _
      rw [Text.filled_eq_some, Option.some_inj]
      constructor
      · rintro ⟨rfl, -⟩
        -- quotes that are taken off would make the item shorter than its tokens
        have hlength := Token.length_bodyTokens (valueText (w :: ws))
        rw [hsplit] at hlength
        have hquotes := not_isQuoted_of_length (List.cons_ne_nil w ws) hlength
        exact ⟨valueText_of_not_isQuoted hquotes, hquotes⟩
      · rintro ⟨hspaced, hquotes⟩
        rw [valueText_of_not_isQuoted hquotes]
        exact ⟨hspaced.symm, hne⟩

/-! ### Where an activity comes from -/

theorem ofRow_lone (t : String) : ofRow [t] = ofTokens none [t] := by
  simp [ofRow, cutActivity]

/-- The token of an activity behind no tokens at all is taken for the item. -/
theorem activity_ofRow_lone (t : String) : (ofRow [t]).activity = none := by
  rw [ofRow_lone, activity_ofTokens]
  split <;> rfl

/-- The activity is the last token, in quotes, or it is all that follows an identifier. -/
theorem activity_ofRow_cases {ts : List String} (hw : w ≠ "")
    (h : (ofRow (w :: ts)).activity = some a) :
    (∃ us t, ts = us ++ [t] ∧ isQuoted t = true ∧ Token.toValue t = a ∧
        ofRow (w :: ts) = ofTokens (some a) (w :: us)) ∨
      (isIdentifier w = true ∧ valueText ts = a ∧ ts ≠ [] ∧
        (ofRow (w :: ts)).identifier? = some w) := by
  rcases List.eq_nil_or_concat' ts with rfl | ⟨us, t, rfl⟩
  · rw [activity_ofRow_lone] at h
    cases h
  · have hrow := ofRow_concat (List.cons_ne_nil w us) t
    rw [List.cons_append] at hrow
    rw [hrow] at h ⊢
    cases hq : isQuoted t with
    | true =>
      rw [hq, if_pos rfl, activity_ofTokens] at h
      have hvalue : Token.toValue t = a := by
        split at h <;> exact Option.some.inj h
      exact .inl ⟨us, t, rfl, hq, hvalue, by rw [if_pos rfl, hvalue]⟩
    | false =>
      rw [hq, if_neg Bool.false_ne_true, activity_ofTokens] at h
      split at h
      next hid =>
        have hfilled : Text.filled (some (valueText (us ++ [t]))) = some a := h
        refine .inr ⟨hid, Option.some.inj (Text.filled_eq_some.mp hfilled).1, by simp, ?_⟩
        rw [if_neg Bool.false_ne_true, identifier?_ofTokens hw, if_pos (.inl hid)]
      · cases h

/-! ### No activity -/

/-- Behind a token that names the item, the last token in quotes would be an activity. -/
theorem ofRow_iff_none (hsplit : Token.bodyTokens id = w :: ws) (hne : id ≠ "") :
    ((ofRow (w :: ws)).identifier? = some id ∧ (ofRow (w :: ws)).activity = none) ↔
      IsName id w ws := by
  rcases List.eq_nil_or_concat' ws with rfl | ⟨us, t, rfl⟩
  · rw [activity_ofRow_lone, ofRow_lone, identifier?_iff hsplit hne]
    exact and_iff_left rfl
  · have hrow := ofRow_concat (List.cons_ne_nil w us) t
    rw [List.cons_append] at hrow
    rw [hrow]
    by_cases hq : isQuoted t = true
    · -- the last token is read as an activity, and no name has a token in quotes
      rw [if_pos hq, activity_ofTokens]
      refine iff_of_false (fun h => ?_) fun h => ?_
      · have hactivity := h.2
        split at hactivity <;> cases hactivity
      · have hrest := h.2
        split at hrest
        · simp at hrest
        · rw [hrest t (by simp)] at hq
          cases hq
    · rw [if_neg hq, identifier?_iff hsplit hne, activity_ofTokens]
      refine and_iff_left_of_imp fun h => ?_
      have hrest := h.2
      split
      next hid =>
        rw [if_pos hid] at hrest
        simp at hrest
      · rfl

/-! ### An activity -/

theorem isBlank_of_not_needsQuotes (h : ¬Token.needsQuotes a = true) :
    ∀ c ∈ a.toList, Text.isBlank c = false := by
  intro c hc
  rw [Token.needsQuotes, List.any_eq_true] at h
  by_contra hb
  exact h ⟨c, hc, Bool.or_eq_true_iff.mpr (.inl (by simpa using hb))⟩

/-- A text that needs no quotes is one token. -/
theorem split_of_not_needsQuotes (h : ¬Token.needsQuotes a = true) (ha : a ≠ "") :
    Token.split a = [a] :=
  Token.split_of_no_blank ha (isBlank_of_not_needsQuotes h)

theorem ofValue_ne_empty (ha : a ≠ "") : Token.ofValue a ≠ "" := by
  unfold Token.ofValue
  split
  · simp
  · exact ha

/-- The token of an activity ends with a quote, or has no blanks. -/
theorem isBlank_last_ofValue (a : String) :
    ∀ c ∈ (Token.ofValue a).toList.getLast?, Text.isBlank c = false := by
  unfold Token.ofValue
  split
  · have hlist : ("\"" ++ a ++ "\"").toList = '"' :: a.toList ++ ['"'] := by simp
    intro c hc
    rw [hlist, List.getLast?_concat] at hc
    obtain rfl := Option.some.inj hc
    exact Token.isBlank_quote
  next hneeds => exact fun c hc => isBlank_of_not_needsQuotes hneeds c (List.mem_of_getLast? hc)

/-- Quotes in which an activity is known hold all of its token. -/
theorem split_of_isQuoted {t : String}
    (ht : t ∈ Token.split ("\"" ++ a ++ "\"")) (hq : isQuoted t = true) (hvalue : Token.toValue t = a) :
    Token.split ("\"" ++ a ++ "\"") = ["\"" ++ a ++ "\""] := by
  obtain ⟨v, rfl⟩ := isQuoted_iff.mp hq
  rw [Token.toValue_quoted] at hvalue
  rw [hvalue] at ht
  exact Token.split_eq_singleton ht

/-- The characters of a row of values are those of the first one, and a space where others follow. -/
theorem toList_valueText (t : String) (ts : List String) :
    ∃ rest, (valueText (t :: ts)).toList = (Token.toValue t).toList ++ rest ∧ rest.head? ≠ some '"' := by
  cases ts with
  | nil => exact ⟨[], by simp [valueText, Text.spaced], by simp⟩
  | cons u us =>
    refine ⟨' ' :: (valueText (u :: us)).toList, ?_, by simp⟩
    simp [valueText, Text.spaced, String.intercalate_cons_cons]

/-- A row of characters with a quote in front of it has one quote more than with a blank behind it. -/
theorem quote_cons_append_ne {t cs ds : List Char} {b : Char} (hb : Text.isBlank b = true) :
    ('"' :: t) ++ cs ≠ (t ++ [b]) ++ ds := by
  intro heq
  obtain ⟨hfirst, -⟩ := List.append_inj heq (by simp)
  have hcount := congrArg (List.count '"') hfirst
  rw [List.count_cons_self, List.count_append, List.count_singleton,
    if_neg (by simpa using Token.ne_quote_of_isBlank hb)] at hcount
  omega

/-- The values of the tokens that an activity in quotes falls apart into do not make it up again. -/
theorem split_of_valueText (h : valueText (Token.split ("\"" ++ a ++ "\"")) = a) :
    Token.split ("\"" ++ a ++ "\"") = ["\"" ++ a ++ "\""] := by
  have hlist : ("\"" ++ a ++ "\"").toList = '"' :: (a.toList ++ ['"']) := by simp
  have happart := Token.fallsApart ('"' :: (a.toList ++ ['"']))
  rw [Token.split, hlist] at h ⊢
  revert happart h
  generalize Token.splitChars ('"' :: (a.toList ++ ['"'])) = ts
  generalize hcs : '"' :: (a.toList ++ ['"']) = cs
  intro h happart
  cases happart with
  | nil => cases hcs
  | blank hb _ =>
    obtain ⟨rfl, -⟩ := List.cons.inj hcs
    exact absurd hb (by decide)
  | last _ =>
    rw [List.map_singleton, ← hcs, ← hlist, String.ofList_toList]
  | @cons t cs b ts _ hb _ =>
    obtain ⟨rest, hrest, hhead⟩ := toList_valueText (String.ofList t) (ts.map String.ofList)
    rw [List.map_cons] at h
    rw [h] at hrest
    rw [hrest] at hcs
    cases hq : isQuoted (String.ofList t) with
    | true =>
      -- the first token ends with a quote, where the activity goes on with something else
      obtain ⟨v, hv⟩ := isQuoted_iff.mp hq
      have ht : t = '"' :: (v.toList ++ ['"']) := by
        have hchars := congrArg String.toList hv
        rw [String.toList_ofList] at hchars
        simpa using hchars
      rw [hv, Token.toValue_quoted, ht] at hcs
      simp only [List.cons_append, List.append_assoc, List.cons.injEq, true_and,
        List.append_cancel_left_eq] at hcs
      cases rest with
      | nil => simp at hcs
      | cons c rest =>
        obtain ⟨rfl, -⟩ := List.cons.inj hcs
        exact absurd rfl hhead
    | false =>
      -- one quote more in front of the first token would be a blank at its end
      rw [toValue_of_not_isQuoted hq, String.toList_ofList] at hcs
      have hshift : ('"' :: t) ++ (rest ++ ['"']) = (t ++ [b]) ++ cs := by
        simpa using hcs
      exact absurd hshift (quote_cons_append_ne hb)

/-- Behind the tokens of an item an activity in quotes is read as it is only if it stays in one piece. -/
theorem split_of_activity (hsplit : Token.bodyTokens id = w :: ws)
    (hidentifier : (ofRow (w :: ws ++ Token.split ("\"" ++ a ++ "\""))).identifier? = some id)
    (hactivity : (ofRow (w :: ws ++ Token.split ("\"" ++ a ++ "\""))).activity = some a) :
    Token.split ("\"" ++ a ++ "\"") = ["\"" ++ a ++ "\""] := by
  rw [List.cons_append] at hidentifier hactivity
  rcases activity_ofRow_cases (ne_empty_of_bodyTokens hsplit) hactivity with
    ⟨us, t, hrow, hq, hvalue, -⟩ | ⟨-, hvalue, -, hw⟩
  · refine split_of_isQuoted ?_ hq hvalue
    rcases List.eq_nil_or_concat' (Token.split ("\"" ++ a ++ "\"")) with hnil | ⟨vs, u, hvs⟩
    · exact absurd (Token.isBlank_of_split hnil '"' (by simp)) (by decide)
    · rw [hvs, ← List.append_assoc] at hrow
      obtain rfl : u = t := (List.append_singleton_inj.mp hrow).2
      simp [hvs]
  · -- an identifier is all of the item, so that the activity is all that follows it
    obtain rfl := Option.some.inj (hw.symm.trans hidentifier)
    obtain rfl := eq_nil_of_bodyTokens hsplit
    exact split_of_valueText hvalue

/-- An activity without quotes is read as it is behind an identifier only. -/
theorem ofRow_iff_bare (hsplit : Token.bodyTokens id = w :: ws) (hne : id ≠ "") (ha : a ≠ "") :
    ((ofRow (w :: ws ++ [a])).identifier? = some id ∧ (ofRow (w :: ws ++ [a])).activity = some a) ↔
      IsName id w ws ∧ isIdentifier w = true ∧ isQuoted a = false := by
  have hw := ne_empty_of_bodyTokens hsplit
  rw [ofRow_concat (List.cons_ne_nil w ws)]
  cases hq : isQuoted a with
  | true =>
    rw [if_pos rfl, activity_ofTokens]
    refine iff_of_false (fun h => ?_) fun h => Bool.false_ne_true h.2.2.symm
    have hvalue : some (Token.toValue a) = some a := by
      rw [← h.2]
      split <;> rfl
    -- a value without its quotes is shorter than the token, and cannot be that token
    have hlength := length_toValue_lt hq
    rw [Option.some.inj hvalue] at hlength
    exact absurd hlength (Nat.lt_irrefl _)
  | false =>
    rw [if_neg Bool.false_ne_true, List.cons_append, identifier?_ofTokens hw, activity_ofTokens]
    cases hid : isIdentifier w with
    | false => exact iff_of_false (fun h => by cases h.2) fun h => Bool.false_ne_true h.2.1
    | true =>
      rw [if_pos (.inl rfl), if_pos rfl, Option.none_or, Option.some_inj, IsName, hid, if_pos rfl]
      constructor
      · rintro ⟨rfl, -⟩
        obtain rfl := eq_nil_of_bodyTokens hsplit
        exact ⟨⟨String.intercalate_singleton.symm, rfl⟩, rfl, rfl⟩
      · rintro ⟨⟨rfl, rfl⟩, -, -⟩
        have hvalue : valueText [a] = a := by
          rw [valueText_of_not_isQuoted (by simpa using hq), Text.spaced,
            String.intercalate_singleton]
        rw [List.nil_append, hvalue]
        exact ⟨String.intercalate_singleton.symm, if_neg ha⟩

/-- The tokens of an item and of its activity are read as both of them if and only if they name the one
and the other is known behind them. -/
theorem ofRow_iff_some (hsplit : Token.bodyTokens id = w :: ws) (hne : id ≠ "") (ha : a ≠ "") :
    ((ofRow (w :: ws ++ Token.split (Token.ofValue a))).identifier? = some id ∧
        (ofRow (w :: ws ++ Token.split (Token.ofValue a))).activity = some a) ↔
      IsName id w ws ∧ IsKnownBehind w a := by
  rw [IsKnownBehind]
  by_cases hneeds : Token.needsQuotes a = true
  · rw [if_pos hneeds, Token.ofValue, if_pos hneeds]
    by_cases hone : Token.split ("\"" ++ a ++ "\"") = ["\"" ++ a ++ "\""]
    · rw [hone, ofRow_concat (List.cons_ne_nil w ws), if_pos (isQuoted_iff.mpr ⟨a, rfl⟩),
        Token.toValue_quoted, identifier?_iff hsplit hne, activity_ofTokens]
      refine and_congr_right' (iff_of_true ?_ rfl)
      split <;> rfl
    · exact iff_of_false (fun h => hone (split_of_activity hsplit h.1 h.2)) fun h => hone h.2
  · rw [if_neg hneeds, Token.ofValue, if_neg hneeds, split_of_not_needsQuotes hneeds ha]
    exact ofRow_iff_bare hsplit hne ha

/-- An identifier is no row of blanks. -/
theorem dot_mem_of_isIdentifier {t : String} (h : isIdentifier t = true) : '.' ∈ t.toList := by
  rcases Bool.or_eq_true_iff.mp h with hu | hdot
  · by_contra hnone
    rw [isUuid, List.splitOn_eq_singleton hnone] at hu
    cases hu
  · exact List.mem_of_head? (of_decide_eq_true hdot)

/-- Behind blanks alone an activity is taken for the item. -/
theorem not_ofRow_of_blank (hblank : ∀ c ∈ id.toList, Text.isBlank c = true) (ha : a ≠ "") :
    ¬((ofRow (Token.split (Token.ofValue a))).identifier? = some id ∧
      (ofRow (Token.split (Token.ofValue a))).activity = some a) := by
  rintro ⟨hidentifier, hactivity⟩
  cases htokens : Token.split (Token.ofValue a) with
  | nil =>
    rw [htokens] at hactivity
    cases hactivity
  | cons u us =>
    have hu : u ≠ "" := Token.ne_empty_of_mem_split (by rw [htokens]; exact List.mem_cons_self)
    rw [htokens] at hidentifier hactivity
    rcases activity_ofRow_cases hu hactivity with ⟨vs, t, rfl, hq, hvalue, -⟩ | ⟨hid, -, -, hw⟩
    · -- what is read as the activity is the only token, and then it is read as the item
      have hone : Token.split (Token.ofValue a) = [Token.ofValue a] := by
        by_cases hneeds : Token.needsQuotes a = true
        · rw [Token.ofValue, if_pos hneeds] at htokens ⊢
          exact split_of_isQuoted (by simp [htokens]) hq hvalue
        · rw [Token.ofValue, if_neg hneeds]
          exact split_of_not_needsQuotes hneeds ha
      simp [htokens] at hone
    · obtain rfl := Option.some.inj (hw.symm.trans hidentifier)
      exact absurd (hblank _ (dot_mem_of_isIdentifier hid)) (by decide)

/-! ### The whole body -/

/-- An item before an activity was read of tokens with all their quotes closed. -/
theorem isBalanced_read {body : String} (hid : (read body).identifier? = some id)
    (ha : (read body).activity ≠ none) : Token.IsBalanced id.toList := by
  rw [read_of_split rfl] at hid ha
  obtain ⟨a, hactivity⟩ := Option.ne_none_iff_exists'.mp ha
  cases htokens : Token.split body with
  | nil =>
    rw [htokens] at hid
    cases hid
  | cons w ts =>
    have hw : w ≠ "" := Token.ne_empty_of_mem_split (by rw [htokens]; exact List.mem_cons_self)
    -- behind the name stands the activity, so that no token of the name is the last one
    have balanced : ∀ u ∈ (w :: ts).dropLast, Token.IsBalanced u.toList := by
      rw [← htokens]
      exact fun u hu => Token.isBalanced_of_closes (Token.closes_of_mem_dropLast hu)
    rw [htokens] at hid hactivity
    rcases activity_ofRow_cases hw hactivity with ⟨us, t, rfl, -, -, hrow⟩ | ⟨-, -, hne, hread⟩
    · rw [← List.cons_append, List.dropLast_concat] at balanced
      rw [hrow, identifier?_ofTokens hw] at hid
      split at hid
      · obtain rfl := Option.some.inj hid
        exact balanced _ List.mem_cons_self
      · have hfilled : Text.filled (some (valueText (w :: us))) = some id := hid
        obtain rfl := Option.some.inj (Text.filled_eq_some.mp hfilled).1
        refine Token.isBalanced_spaced fun u hu => ?_
        obtain ⟨v, hv, rfl⟩ := List.mem_map.mp hu
        exact Token.isBalanced_toValue (balanced v hv)
    · obtain rfl := Option.some.inj (hread.symm.trans hid)
      rw [List.dropLast_cons_of_ne_nil hne] at balanced
      exact balanced _ List.mem_cons_self

/-- The tokens of the body that the canonical text of an item link has. -/
def writtenTokens (i : Item) : List String :=
  Token.bodyTokens (Text.spaced (i.parts.filter (· ≠ "")))

/-- An item link is read from the tokens of all that is written of it. -/
theorem read_parts (i : Item) :
    (Heading.ofKind .item).read none
      (String.ofList (Text.trim (Text.spaced (i.parts.filter (· ≠ ""))).toList)) =
        .item (ofRow i.writtenTokens) :=
  congrArg Command.item (read_of_split rfl)

/-- What is read of the canonical text of an item link names the same item and activity if and only if the
one is told from the other. -/
theorem ofRow_iff (hbalanced : ∀ id, i.identifier? = some id → i.activity ≠ none →
      Token.IsBalanced id.toList) :
    ((ofRow i.writtenTokens).identifier? = i.identifier? ∧
        (ofRow i.writtenTokens).activity = Text.filled i.activity) ↔ i.IsToldApart := by
  -- nothing at all, a name alone, or a name with the activity behind it
  cases hid : i.identifier? with
  | none =>
    have hparts : i.parts = [] := by rw [parts, hid]
    rw [writtenTokens, hparts, isToldApart_of_none hid]
    exact ⟨fun h => h.2.symm, fun h => ⟨rfl, h.symm⟩⟩
  | some id =>
    have hne := (mem_identifier? hid).1
    cases hact : Text.filled i.activity with
    | none =>
      have hparts : i.parts.filter (· ≠ "") = [id] := by
        rw [parts, hid, hact]
        exact List.filter_cons_of_pos (by simpa using hne)
      have hone : Text.spaced [id] = id := String.intercalate_singleton
      rw [writtenTokens, hparts, hone]
      cases hsplit : Token.bodyTokens id with
      | nil => exact iff_of_false (fun h => by cases h.1) (not_isToldApart hid hsplit)
      | cons w ws =>
        rw [ofRow_iff_none hsplit hne, isToldApart_iff hid hsplit, hact]
        exact (and_iff_left (by simp)).symm
    | some a =>
      obtain ⟨hactivity, ha⟩ := Text.filled_eq_some.mp hact
      have hclosed := hbalanced id hid (by rw [hactivity]; simp)
      have htoken : Token.ofValue a ≠ "" := ofValue_ne_empty ha
      have hparts : i.parts.filter (· ≠ "") = [id, Token.ofValue a] := by
        rw [parts, hid, hact]
        simp [hne, htoken]
      rw [writtenTokens, hparts, Token.bodyTokens_spaced hclosed htoken (isBlank_last_ofValue a)]
      cases hsplit : Token.bodyTokens id with
      | nil =>
        have hblank := Token.isBlank_of_split ((Token.bodyTokens_eq_split hclosed).symm.trans hsplit)
        rw [List.nil_append]
        exact iff_of_false (not_ofRow_of_blank hblank ha) (not_isToldApart hid hsplit)
      | cons w ws =>
        rw [ofRow_iff_some hsplit hne ha, isToldApart_iff hid hsplit, hact]
        simp

end Item

namespace Occurrence

/-- An item link that was found was read of a body. -/
theorem IsFound.exists_item {o : Occurrence} (h : o.IsFound) (hk : o.kind = .item) :
    ∃ body, o.command = .item (Item.read body) := by
  obtain ⟨body, -, ⟨hd, -, label, -, hkind, hcommand⟩ | ⟨hkind, -⟩⟩ := h.exists_read
  · refine ⟨body, hcommand.trans ?_⟩
    cases hd with
    | rollFor a =>
      rw [hk] at hkind
      cases hkind
    | ofKind k =>
      obtain rfl : Kind.item = k := hk.symm.trans hkind
      rfl
  · rw [hk] at hkind
    cases hkind

/-- The canonical text of an item link is found as an item link from its first byte to its last. The item
and the activity that are found are the same, an empty activity counting as none, exactly if the canonical
text tells them apart. -/
theorem first?_canonical_item {text : String} {o : Occurrence} (h : first? text = some o)
    (hk : o.kind = .item) :
    ∃ i j : Item, o.command = .item i ∧
      first? o.canonical = some (whole .item (.item j) o.canonical) ∧
      ((j.identifier? = i.identifier? ∧ j.activity = Text.filled i.activity) ↔ i.IsToldApart) := by
  have hfound : o.IsFound := ⟨text, h⟩
  obtain ⟨body, hcommand⟩ := hfound.exists_item hk
  have hclosed := hfound.closed
  rw [hcommand] at hclosed
  have hcanonical : o.canonical = bracketed (Heading.ofKind .item).keyword (Item.read body).parts := by
    rw [canonical, hcommand]
    rfl
  have hagain := first?_bracketed (h := .ofKind .item) (by decide) (Item.closed_parts hclosed)
  rw [← hcanonical, (Item.read body).read_parts] at hagain
  exact ⟨_, _, hcommand, hagain, Item.ofRow_iff fun id => Item.isBalanced_read⟩

/-- A name and an activity with a blank in it are told apart, also where the name was in quotes. -/
theorem first?_canonical_flameTongue :
    ∃ o, first? "[[/item \"Flame Tongue\" \"Ignite Blade\"]]" = some o ∧ o.kind = .item ∧
      o.canonical = "[[/item Flame Tongue \"Ignite Blade\"]]" ∧
      ∃ j : Item, first? o.canonical = some (whole .item (.item j) o.canonical) ∧
        j.identifier? = some "Flame Tongue" ∧ j.activity = some "Ignite Blade" := by
  let i : Item := { name := some "Flame Tongue", activity := some "Ignite Blade" }
  let o : Occurrence :=
    { kind := .item
      command := .item i
      text := "[[/item \"Flame Tongue\" \"Ignite Blade\"]]"
      start := 0
      stop := 39 }
  have hfound : first? "[[/item \"Flame Tongue\" \"Ignite Blade\"]]" = some o := by
    decide +kernel
  have told : i.IsToldApart :=
    ⟨"Flame", ["Tongue"], by decide +kernel, by decide +kernel, by decide +kernel⟩
  obtain ⟨i', j, hcommand, hagain, hiff⟩ := first?_canonical_item hfound rfl
  obtain rfl : i = i' := Command.item.inj hcommand
  obtain ⟨hid, hactivity⟩ := hiff.mpr told
  exact ⟨o, hfound, rfl, by decide, j, hagain, hid, hactivity⟩

/-- An activity that is one word loses the quotes that tell it from the name of the item. -/
theorem canonical_not_same_item :
    ¬ ∀ (text : String) (o : Occurrence), first? text = some o → o.kind = .item →
      ∃ (i j : Item) (p : Occurrence), o.command = .item i ∧ first? o.canonical = some p ∧
        p.command = .item j ∧ j.activity = i.activity ∧ j.identifier? = i.identifier? := by
  intro claim
  let i : Item := { name := some "Flame Tongue", activity := some "Ignite" }
  let o : Occurrence :=
    { kind := .item
      command := .item i
      text := "[[/item Flame Tongue \"Ignite\"]]"
      start := 0
      stop := 31 }
  have hfound : first? "[[/item Flame Tongue \"Ignite\"]]" = some o := by decide +kernel
  have hagain : (first? o.canonical).map command =
      some (.item { name := some "Flame Tongue Ignite" }) := by decide +kernel
  obtain ⟨i', j, p, hi, hp, hj, hactivity, -⟩ := claim _ o hfound rfl
  obtain rfl : i = i' := Command.item.inj hi
  rw [hp, Option.map_some, hj, Option.some_inj] at hagain
  obtain rfl := Command.item.inj hagain
  cases hactivity

end Occurrence

end RollMarkup
