import Mathlib
import RollMarkup.Body.Entry
import RollMarkup.Proofs.Token.Spacing

/-!
# Entries and their tokens

The token of an entry is whole and is read as that entry (`ofToken?_toToken`), where the key is a word
and the value holds no quote. A list of values between slashes is read as that list
(`valueList_intercalate`), where no value is empty or holds a slash. Entries with spaces between them
come apart into their tokens (`split_row`).
-/

namespace RollMarkup

namespace Text

/-- A list is cut at the first place where the character stands. -/
theorem cutFirst?_append {c : Char} {a : List Char} (h : c ∉ a) (b : List Char) :
    cutFirst? c (a ++ c :: b) = some (a, b) := by
  induction a with
  | nil => simp [cutFirst?]
  | cons x xs ih =>
    rw [List.mem_cons, not_or] at h
    simp [cutFirst?, Ne.symm h.1, ih h.2]

/-- A list is not cut exactly if the character is not in it. -/
theorem cutFirst?_eq_none_iff {c : Char} {cs : List Char} : cutFirst? c cs = none ↔ c ∉ cs := by
  induction cs with
  | nil => simp [cutFirst?]
  | cons x xs ih =>
    by_cases hx : x = c
    · simp [cutFirst?, hx]
    · simp [cutFirst?, hx, ih, Ne.symm hx]

/-- A text that is cut is what stands before the cut, the character there and what stands behind it. -/
theorem eq_append_of_cutFirst? {c : Char} {cs : List Char} {p : List Char × List Char}
    (h : cutFirst? c cs = some p) : cs = p.1 ++ c :: p.2 := by
  induction cs generalizing p with
  | nil => cases h
  | cons d ds ih =>
    by_cases hd : d = c
    · rw [cutFirst?, if_pos hd] at h
      obtain rfl := Option.some.inj h
      rw [hd, List.nil_append]
    · rw [cutFirst?, if_neg hd] at h
      obtain ⟨q, hq, rfl⟩ := Option.map_eq_some_iff.mp h
      exact congrArg (d :: ·) (ih hq)

theorem cut?_append {c : Char} {a : String} (h : c ∉ a.toList) (b : String) :
    cut? c (a ++ String.singleton c ++ b) = some (a, b) := by
  simp [cut?, cutFirst?_append h]

theorem cut?_eq_none {c : Char} {s : String} (h : c ∉ s.toList) : cut? c s = none := by
  simp [cut?, cutFirst?_eq_none_iff.mpr h]

end Text

namespace Token

/-- What a value in quotes stands for is the value, whatever it holds. -/
theorem unquoteChars_quoted (cs : List Char) : unquoteChars ('"' :: (cs ++ ['"'])) = cs := by
  simp [unquoteChars]

/-- Quotes put around a value are taken off again, whatever stands between them. -/
theorem toValue_quoted (v : String) : toValue ("\"" ++ v ++ "\"") = v := by
  have hq : ("\"" ++ v ++ "\"").toList = '"' :: (v.toList ++ ['"']) := by simp
  rw [toValue, hq, unquoteChars_quoted, String.ofList_toList]

theorem unquoteChars_of_no_quote {cs : List Char} (h : '"' ∉ cs) : unquoteChars cs = cs := by
  cases cs with
  | nil => rfl
  | cons c cs =>
    have hc : c ≠ '"' := by
      rintro rfl
      exact h List.mem_cons_self
    unfold unquoteChars
    split
    · next heq => exact absurd (List.cons.inj heq).1 hc
    · rfl

/-- A token without quotes is its own value. -/
theorem toValue_of_no_quote {s : String} (h : '"' ∉ s.toList) : toValue s = s := by
  rw [toValue, unquoteChars_of_no_quote h, String.ofList_toList]

/-- A value without a quote is read back from its token. -/
theorem toValue_ofValue {v : String} (h : '"' ∉ v.toList) : toValue (ofValue v) = v := by
  unfold ofValue
  split
  · exact toValue_quoted v
  · exact toValue_of_no_quote h

/-- A written value opens no quotes that it does not close. -/
theorem closes_ofValue {v : String} (h : '"' ∉ v.toList) : closes false (ofValue v).toList = true := by
  unfold ofValue
  split
  · have hq : ("\"" ++ v ++ "\"").toList = '"' :: (v.toList ++ ['"']) := by simp
    rw [hq]
    simpa [closes] using closes_quoted h
  next hn =>
    refine closes_of_no_quote fun c hc => ⟨?_, fun hq => h (hq ▸ hc)⟩
    simp only [needsQuotes, List.any_eq_true, not_exists, not_and, Bool.or_eq_true, not_or] at hn
    simpa using (hn c hc).1

theorem not_mem_ofValue {v : String} (h : ']' ∉ v.toList) : ']' ∉ (ofValue v).toList := by
  unfold ofValue
  split
  · simpa using h
  · exact h

/-- A value that is not empty is written as one token. -/
theorem isWhole_ofValue {v : String} (hne : v ≠ "") (h : '"' ∉ v.toList) : IsWhole (ofValue v) := by
  refine ⟨?_, closes_ofValue h⟩
  unfold ofValue
  split
  · simp
  · exact hne

end Token

namespace Entry

/-- An entry that its token gives back. -/
def IsSound (e : Entry) : Prop :=
  Token.IsWord e.key ∧ '"' ∉ e.value.toList

instance (e : Entry) : Decidable e.IsSound :=
  inferInstanceAs (Decidable (Token.IsWord e.key ∧ '"' ∉ e.value.toList))

/-- An entry is sound if its key is a word and its value holds no quote. -/
theorem isSound_mk {key value : String} (hk : Token.IsWord key) (hv : '"' ∉ value.toList) :
    (Entry.mk key value).IsSound :=
  ⟨hk, hv⟩

theorem toList_toToken (e : Entry) :
    e.toToken.toList = e.key.toList ++ '=' :: (Token.ofValue e.value).toList := by
  simp [toToken]

/-- A written entry holds an equals sign. -/
theorem equals_mem_toToken (e : Entry) : '=' ∈ e.toToken.toList := by
  simp [toList_toToken]

theorem equals_mem_of_mem_map {es : List Entry} {t : String} (ht : t ∈ es.map toToken) :
    '=' ∈ t.toList := by
  obtain ⟨e, -, rfl⟩ := List.mem_map.mp ht
  exact e.equals_mem_toToken

/-- A text without an equals sign is the token of no entry. -/
theorem toToken_ne {t : String} (h : '=' ∉ t.toList) (e : Entry) : e.toToken ≠ t := by
  rintro rfl
  exact h e.equals_mem_toToken

/-- The token of an entry holds no closing bracket that the entry does not hold. -/
theorem not_mem_toToken {e : Entry} (hk : ']' ∉ e.key.toList) (hv : ']' ∉ e.value.toList) :
    ']' ∉ e.toToken.toList := by
  rw [toList_toToken, List.mem_append, List.mem_cons, not_or, not_or]
  exact ⟨hk, by decide, Token.not_mem_ofValue hv⟩

/-- A sound entry is read back from its token. -/
theorem ofToken?_toToken {e : Entry} (h : e.IsSound) : ofToken? e.toToken = some e := by
  have hkey : '=' ∉ e.key.toList := fun hc => (h.1.2 _ hc).2.1 rfl
  simp [ofToken?, Text.cut?, toList_toToken, Text.cutFirst?_append hkey,
    Token.toValue_ofValue h.2]

/-- A sound entry is written as one token. -/
theorem isWhole_toToken {e : Entry} (h : e.IsSound) : Token.IsWhole e.toToken := by
  have hkey : Token.closes false (e.key.toList ++ ['=']) = true := by
    rw [Token.closes_append h.1.isWhole.2]
    decide
  refine ⟨?_, ?_⟩
  · intro he
    have hl := congrArg String.toList he
    simp [toList_toToken] at hl
  · rw [toList_toToken, List.append_cons, Token.closes_append hkey]
    exact Token.closes_ofValue h.2

theorem isWhole_map_toToken {es : List Entry} (h : ∀ e ∈ es, e.IsSound) :
    ∀ t ∈ es.map toToken, Token.IsWhole t := by
  intro t ht
  obtain ⟨e, he, rfl⟩ := List.mem_map.mp ht
  exact isWhole_toToken (h e he)

/-- An entry whose token gives it back and does not end the command. -/
def IsPlain (e : Entry) : Prop :=
  Token.IsPlain e.key ∧ Token.IsQuotable e.value

instance (e : Entry) : Decidable e.IsPlain :=
  inferInstanceAs (Decidable (Token.IsPlain e.key ∧ Token.IsQuotable e.value))

theorem IsPlain.isSound {e : Entry} (h : e.IsPlain) : e.IsSound :=
  isSound_mk h.1.1 h.2.1

/-- A plain entry does not end the command it is written in. -/
theorem IsPlain.closed {e : Entry} (h : e.IsPlain) : ']' ∉ e.toToken.toList :=
  not_mem_toToken h.1.2.2 h.2.2

/-- A token without an equals sign is no entry. -/
theorem ofToken?_eq_none {token : String} (h : '=' ∉ token.toList) : ofToken? token = none := by
  rw [ofToken?, Text.cut?_eq_none h, Option.map_none]

/-- A token with an equals sign is an entry. -/
theorem isSome_ofToken? {token : String} (h : '=' ∈ token.toList) :
    (ofToken? token).isSome = true := by
  rw [ofToken?, Option.isSome_map, Text.cut?, Option.isSome_map, ← Option.ne_none_iff_isSome]
  exact fun hnone => Text.cutFirst?_eq_none_iff.mp hnone h

/-- A word is no entry. -/
theorem ofToken?_word {s : String} (h : Token.IsWord s) : ofToken? s = none :=
  ofToken?_eq_none fun hc => (h.2 _ hc).2.1 rfl

/-- A token begins with a key and an equals sign exactly if the entry that it is has this key. -/
theorem isPrefix_iff {t : String} {e : Entry} (he : ofToken? t = some e) {key : String}
    (hkey : '=' ∉ key.toList) : key.toList ++ ['='] <+: t.toList ↔ e.key = key := by
  obtain ⟨p, hp, rfl⟩ := Option.map_eq_some_iff.mp he
  obtain ⟨q, hq, rfl⟩ := Option.map_eq_some_iff.mp hp
  constructor
  · rintro ⟨rest, hrest⟩
    rw [← hrest, List.append_assoc, List.singleton_append, Text.cutFirst?_append hkey] at hq
    obtain rfl := Option.some.inj hq
    exact String.ofList_toList
  · rintro rfl
    rw [Text.eq_append_of_cutFirst? hq, String.toList_ofList]
    exact ⟨q.2, by simp⟩

/-! ### Bodies with keys -/

/-- Sound entries are taken one by one, where a token with a key is taken for its entry. -/
theorem foldl_toToken {σ : Type} {add : σ → String → σ} {put : σ → Entry → σ}
    (hadd : ∀ d t e, ofToken? t = some e → add d t = put d e) {es : List Entry}
    (hs : ∀ e ∈ es, e.IsSound) (d : σ) : (es.map toToken).foldl add d = es.foldl put d := by
  induction es generalizing d with
  | nil => rfl
  | cons e es ih =>
    rw [List.map_cons, List.foldl_cons, List.foldl_cons,
      hadd d _ e (ofToken?_toToken (hs e List.mem_cons_self)),
      ih fun f hf => hs f (List.mem_cons_of_mem _ hf)]

/-- What may be absent is taken if it is there. -/
def putOption {σ α : Type} (put : σ → α → σ) (d : σ) (e : Option α) : σ :=
  e.elim d (put d)

/-- What is absent changes nothing, so it may be passed over before or while the rest is put. -/
theorem foldl_filterMap_id {σ α : Type} (put : σ → α → σ) (d : σ) (es : List (Option α)) :
    (es.filterMap id).foldl put d = es.foldl (putOption put) d := by
  induction es generalizing d with
  | nil => rfl
  | cons e es ih =>
    cases e with
    | none => exact ih d
    | some e => exact ih (put d e)

/-- An entry with several values is the one with slashes between them. -/
theorem forall_mem_ofList? {P : Entry → Prop} {key : String} {vs : List String}
    (h : P ⟨key, "/".intercalate vs⟩) : ∀ e ∈ ofList? key vs, P e := by
  intro e he
  unfold ofList? at he
  split at he
  · cases he
  · exact Option.some.inj he ▸ h

theorem not_mem_list {x : Char} (hx : x = '"' ∨ x = ']') {vs : List String}
    (h : ∀ v ∈ vs, x ∉ v.toList) : x ∉ ("/".intercalate vs).toList :=
  Token.not_mem_intercalate (by rcases hx with rfl | rfl <;> decide) h

/-- A list of quotable texts is a plain entry, or none if the list is empty. -/
theorem isPlain_ofList? {key : String} (hkey : Token.IsPlain key) {vs : List String}
    (h : ∀ v ∈ vs, Token.IsQuotable v) : ∀ e ∈ ofList? key vs, e.IsPlain :=
  forall_mem_ofList? ⟨hkey, not_mem_list (.inl rfl) fun v hv => (h v hv).1,
    not_mem_list (.inr rfl) fun v hv => (h v hv).2⟩

/-- Values between slashes are read one by one, each of them as if it stood alone. -/
theorem valueList_list (vs : List String) :
    valueList ("/".intercalate vs) = vs.flatMap valueList := by
  induction vs with
  | nil => rfl
  | cons v vs ih =>
    cases vs with
    | nil => simp
    | cons w ws =>
      have hl : ("/".intercalate (v :: w :: ws)).toList =
          v.toList ++ '/' :: ("/".intercalate (w :: ws)).toList := by
        rw [String.intercalate_cons_cons]
        simp
      rw [List.flatMap_cons, ← ih, valueList, hl, List.splitOn_append_cons_self, List.filter_append,
        List.map_append]
      rfl

/-- A value without a slash is a list of one. -/
theorem valueList_of_no_slash {v : String} (hne : v ≠ "") (h : '/' ∉ v.toList) :
    valueList v = [v] := by
  rw [valueList, List.splitOn_eq_singleton h]
  simp [hne]

/-- Values between slashes are read back, where none is empty and none holds a slash itself. -/
theorem valueList_intercalate {vs : List String} (h : ∀ v ∈ vs, v ≠ "" ∧ '/' ∉ v.toList) :
    valueList ("/".intercalate vs) = vs := by
  rw [valueList_list]
  induction vs with
  | nil => rfl
  | cons v vs ih =>
    obtain ⟨hne, hslash⟩ := h v List.mem_cons_self
    rw [List.flatMap_cons, valueList_of_no_slash hne hslash,
      ih fun w hw => h w (List.mem_cons_of_mem _ hw), List.singleton_append]

/-- A field that takes the values of its entry one by one is set to the values that were written. -/
theorem putOption_ofList? {σ : Type} {put : σ → Entry → σ} {d : σ} {key : String}
    (set : List String → σ) (hnil : set [] = d)
    (hput : ∀ v, valueList v ≠ [] → put d ⟨key, v⟩ = set (valueList v)) {vs : List String}
    (h : ∀ v ∈ vs, v ≠ "" ∧ '/' ∉ v.toList) : putOption put d (ofList? key vs) = set vs := by
  cases vs with
  | nil => exact hnil.symm
  | cons v vs =>
    have hread := valueList_intercalate h
    have hne : valueList ("/".intercalate (v :: vs)) ≠ [] := by
      rw [hread]
      exact List.cons_ne_nil v vs
    exact (hput _ hne).trans (congrArg set hread)

/-! ### Rows of entries -/

/-- Entries with single spaces between them come apart into one token each, which is read as its entry:
the key is a word, and the value is any text without a quote. Values with slashes between them are read
as the list they make, where none is empty or holds a slash. -/
theorem split_row (es : List Entry) (h : ∀ e ∈ es, e.IsSound) (vs : List String)
    (hvs : ∀ v ∈ vs, v ≠ "" ∧ '/' ∉ v.toList) :
    Token.split (Text.spaced (es.map toToken)) = es.map toToken ∧
      (Token.split (Text.spaced (es.map toToken))).map ofToken? = es.map some ∧
      valueList ("/".intercalate vs) = vs := by
  have hsplit := Token.split_spaced (isWhole_map_toToken h)
  refine ⟨hsplit, ?_, valueList_intercalate hvs⟩
  rw [hsplit, List.map_map]
  exact List.map_congr_left fun e he => ofToken?_toToken (h e he)

/-- A value with a line break, blanks and an equals sign beside an empty one and one with slashes. -/
theorem split_row_sneak :
    (Token.split "activity=\"Sneak\u2003Attack =\n3d6\" dc= skill=\"arcana/sleight of hand\"").map ofToken? =
        [some ⟨"activity", "Sneak\u2003Attack =\n3d6"⟩, some ⟨"dc", ""⟩,
          some ⟨"skill", "arcana/sleight of hand"⟩] ∧
      valueList "arcana/sleight of hand" = ["arcana", "sleight of hand"] := by
  have hrow := split_row
    [⟨"activity", "Sneak\u2003Attack =\n3d6"⟩, ⟨"dc", ""⟩, ⟨"skill", "arcana/sleight of hand"⟩]
    (by decide) ["arcana", "sleight of hand"] (by decide)
  exact hrow.2

end Entry

end RollMarkup
