import Mathlib
import RollMarkup.Body.Suffix
import RollMarkup.Proofs.Field.Values
import RollMarkup.Proofs.Token.Entry
import RollMarkup.Proofs.Vocabulary.Naming

/-!
# Settings behind a positional body

The settings that are written behind other tokens are found again (`cut_tokens`), and what stands
before them is left as it was, where its last token is no setting (`isSetting`). So it is wherever
settings follow a row of tokens (`Follows`).
-/

namespace RollMarkup

namespace Average

/-- An average that is not shown counts as absent. -/
def kept (a : Option Average) : Option Average :=
  a.filter (· ≠ .shown false)

/-! An average that is not shown is not written either. -/

theorem entry?_kept (a : Option Average) : entry? (kept a) = entry? a := by
  rcases a with _ | (_ | _) | n | s <;> rfl

theorem positional_kept (a : Option Average) : positional (kept a) = positional a := by
  rcases a with _ | (_ | _) | n | s <;> rfl

theorem any_replacesComputed_kept (a : Option Average) :
    (kept a).any replacesComputed = a.any replacesComputed := by
  rcases a with _ | (_ | _) | n | s <;> rfl

/-- What holds of the entry of an average holds of all that is written for it by key. -/
theorem forall_mem_entry? {P : Entry → Prop} {a : Option Average}
    (h : ∀ b ∈ a, P ⟨"average", b.toText⟩) : ∀ e ∈ entry? a, P e := by
  rcases a with _ | (_ | _) | n | s <;> rintro e ⟨⟩
  all_goals exact h _ rfl

/-- An average that its text gives back sets its field, unless it is not shown. -/
theorem putOption_of_isStable {σ : Type} {put : σ → Entry → σ} {d : σ} (set : Average → σ)
    (hput : ∀ v, put d ⟨"average", v⟩ = set (ofText v)) {a : Option Average}
    (h : ∀ b ∈ a, b.IsStable) : Entry.putOption put d (Average.entry? a) = (kept a).elim d set := by
  have entry : ∀ b ∈ a, put d ⟨"average", b.toText⟩ = set b := by
    intro b hb
    have hstable : ofText b.toText = b := h b hb
    rw [hput, hstable]
  rcases a with _ | (_ | _) | n | s
  · rfl
  · rfl
  all_goals exact entry _ rfl

/-- What holds of the word `average` and of the entry holds of all that is written for an average.
-/
theorem forall_mem_positional {P : String → Prop} {a : Option Average} (shown : P "average")
    (entry : ∀ b ∈ a, P (Entry.mk "average" b.toText).toToken) : ∀ t ∈ positional a, P t := by
  rcases a with _ | (_ | _) | n | s
  · exact List.forall_mem_nil _
  · exact List.forall_mem_nil _
  · exact List.forall_mem_singleton.mpr shown
  · exact List.forall_mem_singleton.mpr (entry _ rfl)
  · exact List.forall_mem_singleton.mpr (entry _ rfl)

/-- An average that is shown or not is written as one word at most. -/
theorem mem_positional {a : Option Average} (h : a.any replacesComputed = false) {t : String}
    (ht : t ∈ positional a) : t = "average" := by
  rcases a with _ | (_ | _) | n | s
  · cases ht
  · cases ht
  · exact List.mem_singleton.mp ht
  · cases h
  · cases h

theorem reverse_positional (a : Option Average) :
    (positional a).reverse = positional a := by
  rcases a with _ | (_ | _) | n | s <;> rfl

end Average

namespace Suffix

/-- The tokens of the settings, in the order in which they are written. -/
def tokens (s : Suffix) : List String :=
  Average.positional s.average ++
    ((s.format.map fun f => (Entry.mk "format" (Keyword.word f)).toToken).toList ++
      (s.activity.map fun v => (Entry.mk "activity" v).toToken).toList)

/-- What holds of each token that settings may have holds of the tokens they have. -/
theorem forall_mem_tokens {P : String → Prop} {s : Suffix} (shown : P "average")
    (average : ∀ a ∈ s.average, P (Entry.mk "average" a.toText).toToken)
    (format : ∀ f ∈ s.format, P (Entry.mk "format" (Keyword.word f)).toToken)
    (activity : ∀ v ∈ s.activity, P (Entry.mk "activity" v).toToken) : ∀ t ∈ s.tokens, P t := by
  intro t ht
  simp only [tokens, List.mem_append, Option.mem_toList] at ht
  rcases ht with ht | ht | ht
  · exact Average.forall_mem_positional shown average t ht
  · exact Option.forall_mem_map.mpr format t ht
  · exact Option.forall_mem_map.mpr activity t ht

/-- Settings that their tokens give back. -/
structure IsSound (s : Suffix) : Prop where
  stable : ∀ a ∈ s.average, a.IsStable
  average : ∀ a ∈ s.average, '"' ∉ a.toText.toList
  activity : ∀ v ∈ s.activity, '"' ∉ v.toList

/-- The one setting without an equals sign is no entry. -/
theorem toToken_ne_average (e : Entry) : e.toToken ≠ "average" :=
  e.toToken_ne (by decide)

/-- An average written by key is taken as the average. -/
theorem take?_average {v : String} (h : '"' ∉ v.toList) (s : Suffix) :
    s.take? (Entry.mk "average" v).toToken = some { s with average := some (.ofText v) } := by
  unfold take?
  rw [if_neg (toToken_ne_average _), Entry.ofToken?_toToken (Entry.isSound_mk (by decide) h)]
  rfl

/-- A format written by key is taken as the format. -/
theorem take?_format (f : DisplayFormat) (s : Suffix) :
    s.take? (Entry.mk "format" (Keyword.word f)).toToken = some { s with format := some f } := by
  have hq := (Keyword.isPlain_format f).not_mem (.inl rfl)
  unfold take?
  rw [if_neg (toToken_ne_average _), Entry.ofToken?_toToken (Entry.isSound_mk (by decide) hq),
    ← Keyword.Lawful.ofWord?_word f]
  rfl

/-- An activity written by key is taken as the activity. -/
theorem take?_activity {v : String} (h : '"' ∉ v.toList) (s : Suffix) :
    s.take? (Entry.mk "activity" v).toToken = some { s with activity := some v } := by
  unfold take?
  rw [if_neg (toToken_ne_average _), Entry.ofToken?_toToken (Entry.isSound_mk (by decide) h)]
  rfl

/-- Whether a token is a setting: the word for an average, or one of three keys with its value. -/
def isSetting (token : String) : Bool :=
  token = "average" ||
    ["average", "format", "activity"].any fun key => (key.toList ++ ['=']).isPrefixOf token.toList

/-- The tokens that belong to a suffix are the settings, whatever was taken before. -/
theorem isSome_take? (s : Suffix) (t : String) : (s.take? t).isSome = isSetting t := by
  by_cases haverage : t = "average"
  · rw [take?, isSetting, if_pos haverage, decide_eq_true haverage]
    rfl
  rw [take?, isSetting, if_neg haverage, decide_eq_false haverage, Bool.false_or, Bool.eq_iff_iff]
  simp only [List.any_cons, List.any_nil, Bool.or_false, Bool.or_eq_true, List.isPrefixOf_iff_prefix]
  cases he : Entry.ofToken? t with
  | none =>
    -- without an equals sign the token begins with no key
    have hequals : '=' ∉ t.toList := by
      intro hmem
      have hsome := Entry.isSome_ofToken? hmem
      rw [he] at hsome
      cases hsome
    have hno : ∀ key : String, ¬ key.toList ++ ['='] <+: t.toList :=
      fun key hkey => hequals (hkey.subset (by simp))
    refine iff_of_false Bool.false_ne_true ?_
    rintro (h | h | h)
    · exact hno "average" h
    · exact hno "format" h
    · exact hno "activity" h
  | some e =>
    rw [Entry.isPrefix_iff he (by decide), Entry.isPrefix_iff he (by decide),
      Entry.isPrefix_iff he (by decide)]
    obtain ⟨key, value⟩ := e
    dsimp only
    split <;> simp_all

/-- A token that is no setting is not taken. -/
theorem take?_eq_none {t : String} (h : isSetting t = false) (s : Suffix) : s.take? t = none := by
  rw [← Option.not_isSome_iff_eq_none, isSome_take?, h]
  exact Bool.false_ne_true

/-- A word is no setting, unless it is `average`. -/
theorem isSetting_word {w : String} (h : Token.IsWord w) (hne : w ≠ "average") :
    isSetting w = false := by
  rw [← isSome_take? {}, take?, if_neg hne, Entry.ofToken?_word h]
  rfl

/-- What is left of tokens begins with the first one that is no setting. -/
theorem takeAll_fst (s : Suffix) (ts : List String) :
    (takeAll s ts).1 = ts.dropWhile isSetting := by
  induction ts generalizing s with
  | nil => rfl
  | cons t ts ih =>
    have hsome := isSome_take? s t
    rw [takeAll]
    split
    next s' hs' =>
      rw [hs'] at hsome
      rw [List.dropWhile_cons_of_pos hsome.symm, ih]
    next hs' =>
      rw [hs'] at hsome
      rw [List.dropWhile_cons_of_neg (by simp [← hsome])]

/-- Of the tokens of a body, all but the settings at its end are left. -/
theorem cut_fst (ts : List String) : (cut ts).1 = ts.rdropWhile isSetting := by
  rw [cut, takeAll_fst, List.rdropWhile]

/-- The tokens before the settings at the end are those that the body begins with. -/
theorem cut_isPrefix (ts : List String) : (cut ts).1 <+: ts := by
  rw [cut_fst]
  exact List.rdropWhile_prefix _ _

/-- A token that is no setting is left. -/
theorem mem_cut {t : String} (h : isSetting t = false) {ts : List String} (ht : t ∈ ts) :
    t ∈ (cut ts).1 := by
  have hparts : ts.rdropWhile isSetting ++ ts.rtakeWhile isSetting = ts :=
    List.rdropWhile_append_rtakeWhile
  rw [← hparts, List.mem_append] at ht
  rw [cut_fst]
  refine ht.resolve_right fun hset => ?_
  rw [List.mem_rtakeWhile_imp hset] at h
  cases h

/-- A setting at the front is taken, and the rest is taken behind it. -/
theorem takeAll_cons {s s' : Suffix} {t : String} (h : s.take? t = some s') (ts : List String) :
    takeAll s (t :: ts) = takeAll s' ts := by
  rw [takeAll, h]

/-- Settings are taken up to the first token that is none. -/
theorem takeAll_of_head {ts : List String} (h : ∀ t ∈ ts.head?, isSetting t = false) (s : Suffix) :
    takeAll s ts = (ts, s) := by
  cases ts with
  | nil => rfl
  | cons t ts => rw [takeAll, take?_eq_none (h t rfl)]

theorem takeAll_average {a : Option Average} (hs : ∀ b ∈ a, b.IsStable)
    (hq : ∀ b ∈ a, '"' ∉ b.toText.toList) (s : Suffix) (ts : List String) :
    takeAll s (Average.positional a ++ ts) =
      takeAll { s with average := (Average.kept a).or s.average } ts := by
  have entry : ∀ b ∈ a, s.take? (Entry.mk "average" b.toText).toToken =
      some { s with average := some b } := by
    intro b hb
    have hstable : Average.ofText b.toText = b := hs b hb
    rw [take?_average (hq b hb), hstable]
  rcases a with _ | (_ | _) | n | t
  · rfl
  · rfl
  · exact takeAll_cons rfl ts
  · exact takeAll_cons (entry _ rfl) ts
  · exact takeAll_cons (entry _ rfl) ts

theorem takeAll_format (f : Option DisplayFormat) (s : Suffix) (ts : List String) :
    takeAll s ((f.map fun f => (Entry.mk "format" (Keyword.word f)).toToken).toList ++ ts) =
      takeAll { s with format := f.or s.format } ts := by
  cases f with
  | none => rfl
  | some f => exact takeAll_cons (take?_format f s) ts

theorem takeAll_activity {a : Option String} (h : ∀ v ∈ a, '"' ∉ v.toList) (s : Suffix)
    (ts : List String) :
    takeAll s ((a.map fun v => (Entry.mk "activity" v).toToken).toList ++ ts) =
      takeAll { s with activity := a.or s.activity } ts := by
  cases a with
  | none => rfl
  | some v => exact takeAll_cons (take?_activity (h v rfl) s) ts

/-- The settings behind other tokens are cut off, and they are those that were written. -/
theorem cut_tokens {s : Suffix} (h : s.IsSound) {ts : List String}
    (last : ∀ t ∈ ts.getLast?, isSetting t = false) :
    cut (ts ++ s.tokens) = (ts, { s with average := Average.kept s.average }) := by
  have head : ∀ t ∈ ts.reverse.head?, isSetting t = false := by
    rw [List.head?_reverse]
    exact last
  have single : ∀ o : Option String, o.toList.reverse = o.toList := by
    intro o
    cases o <;> rfl
  have hreverse : (ts ++ s.tokens).reverse =
      (s.activity.map fun v => (Entry.mk "activity" v).toToken).toList ++
        ((s.format.map fun f => (Entry.mk "format" (Keyword.word f)).toToken).toList ++
          (Average.positional s.average ++ ts.reverse)) := by
    rw [tokens, List.reverse_append, List.reverse_append, List.reverse_append, single, single,
      Average.reverse_positional]
    simp only [List.append_assoc]
  rw [cut, hreverse, takeAll_activity h.activity, takeAll_format,
    takeAll_average h.stable h.average, takeAll_of_head head]
  simp only [List.reverse_reverse, Option.or_none]

theorem isWhole_tokens {s : Suffix} (h : s.IsSound) : ∀ t ∈ s.tokens, Token.IsWhole t := by
  have hentry : ∀ {k v : String}, Token.IsWord k → '"' ∉ v.toList →
      Token.IsWhole (Entry.mk k v).toToken :=
    fun hk hv => Entry.isWhole_toToken (Entry.isSound_mk hk hv)
  apply forall_mem_tokens
  · decide
  · exact fun a ha => hentry (by decide) (h.average a ha)
  · exact fun f _ => hentry (by decide) ((Keyword.isPlain_format f).not_mem (.inl rfl))
  · exact fun v hv => hentry (by decide) (h.activity v hv)

/-! ### Settings behind a row of tokens -/

/-- Settings can stand behind a row of tokens in a body without keys: the tokens are whole, the first one
of the body has no key, and the last one of the row is no setting itself. -/
structure Follows (s : Suffix) (ts : List String) : Prop where
  whole : ∀ t ∈ ts, Token.IsWhole t
  head : ∀ t ∈ (ts ++ s.tokens).head?, '=' ∉ t.toList
  last : ∀ t ∈ ts.getLast?, isSetting t = false

section

variable {s : Suffix} {ts : List String}

theorem Follows.isWhole (h : s.Follows ts) (hs : s.IsSound) :
    ∀ t ∈ ts ++ s.tokens, Token.IsWhole t :=
  List.forall_mem_append.mpr ⟨h.whole, isWhole_tokens hs⟩

/-- Settings behind a row are cut off the row that they follow. -/
theorem Follows.cut (h : s.Follows ts) (hs : s.IsSound) :
    Suffix.cut (ts ++ s.tokens) = (ts, { s with average := Average.kept s.average }) :=
  cut_tokens hs h.last

/-- Settings can stand behind words, if none of these is the word for an average. -/
theorem follows_of_words (h : ∀ t ∈ ts, Token.IsWord t ∧ t ≠ "average")
    (hnil : ts = [] → ∀ t ∈ s.tokens.head?, '=' ∉ t.toList) : s.Follows ts where
  whole t ht := (h t ht).1.isWhole
  head := by
    cases ts with
    | nil => exact hnil rfl
    | cons t ts =>
      rintro u ⟨⟩
      exact fun hc => ((h t List.mem_cons_self).1.2 _ hc).2.1 rfl
  last t ht := isSetting_word (h t (List.mem_of_getLast? ht)).1 (h t (List.mem_of_getLast? ht)).2

end

/-- The settings of a body without keys that has no place for others: the average, as a flag. -/
def flag (a : Option Average) : Suffix :=
  { average := a }

theorem tokens_flag (a : Option Average) : (flag a).tokens = Average.positional a := by
  simp [flag, tokens]

theorem isSound_flag {a : Option Average} (ha : a.any Average.replacesComputed = false) :
    (flag a).IsSound := by
  rcases a with _ | b | n | s
  · exact ⟨by decide, by decide, by decide⟩
  · cases b <;> exact ⟨by decide, by decide, by decide⟩
  · cases ha
  · cases ha

/-- An average that is a flag can stand behind any words, or alone. -/
theorem follows_flag {a : Option Average} (ha : a.any Average.replacesComputed = false)
    {ts : List String} (h : ∀ t ∈ ts, Token.IsWord t ∧ t ≠ "average") : (flag a).Follows ts := by
  refine follows_of_words h fun _ t ht => ?_
  rw [tokens_flag] at ht
  rw [Average.mem_positional ha (List.mem_of_head? ht)]
  decide

/-- The settings hold no closing bracket beyond those in their texts. -/
theorem closed_tokens {s : Suffix} (ha : ∀ t ∈ s.average.bind Average.formula?, ']' ∉ t.toList)
    (hv : ∀ t ∈ s.activity, ']' ∉ t.toList) : ∀ t ∈ s.tokens, ']' ∉ t.toList := by
  have hentry : ∀ {k v : String}, ']' ∉ k.toList → ']' ∉ v.toList →
      ']' ∉ (Entry.mk k v).toToken.toList := fun hk hv => Entry.not_mem_toToken hk hv
  apply forall_mem_tokens
  · decide
  · intro a h
    have htext : ']' ∉ a.toText.toList :=
      Average.not_mem_toText (.inr rfl) fun u hu => ha u (Option.bind_eq_some_iff.mpr ⟨a, h, hu⟩)
    exact hentry (by decide) htext
  · exact fun f _ => hentry (by decide) (Keyword.isPlain_format f).2.2
  · exact fun v h => hentry (by decide) (hv v h)

end Suffix

end RollMarkup
