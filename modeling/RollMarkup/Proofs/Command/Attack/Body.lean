import Mathlib
import RollMarkup.Command.Attack
import RollMarkup.Proofs.Field.Values
import RollMarkup.Proofs.Token.Entry
import RollMarkup.Proofs.Vocabulary.Naming

/-!
# Bodies of attacks

A body with keys gives back every field (`read_keyed`), where a formula with a sign may stand without
one. The words of a formula and a mode are read as such where none of the words is a format or a
mode (`read_words`).
-/

namespace RollMarkup

namespace Attack

variable {a : Attack}

/-! ### Signs -/

/-- A text has a sign if it begins with one. -/
theorem hasSign_iff {s : String} :
    hasSign s = true ↔ ∃ cs, s.toList = '+' :: cs ∨ s.toList = '-' :: cs := by
  unfold hasSign
  split
  next cs h => simp [h]
  next cs h => simp [h]
  next hp hm =>
    simp only [Bool.false_eq_true, false_iff, not_exists, not_or]
    exact fun cs => ⟨fun h => hp cs h, fun h => hm cs h⟩

theorem withoutPlus_of_plus {s : String} {cs : List Char} (h : s.toList = '+' :: cs) :
    withoutPlus s = String.ofList cs := by
  rw [withoutPlus, h]
  rfl

/-- A plus sign put in front of a text is taken off again. -/
theorem withoutPlus_append (s : String) : withoutPlus ("+" ++ s) = s := by
  have hlist : ("+" ++ s).toList = '+' :: s.toList := by simp
  rw [withoutPlus_of_plus hlist, String.ofList_toList]

theorem withoutPlus_of_no_plus {s : String} (h : ∀ cs, s.toList ≠ '+' :: cs) :
    withoutPlus s = s := by
  unfold withoutPlus
  split
  next cs hc => exact absurd hc (h cs)
  · rfl

/-- A text with a sign is no word of a closed vocabulary. -/
theorem place_of_head {t : String} {c : Char} {cs : List Char} (h : t.toList = c :: cs)
    (hc : c = '+' ∨ c = '-' ∨ c = '"') (d : Draft) :
    d.place t = { d with words := d.words ++ [Token.toValue t] } := by
  have hformat : (Keyword.ofWord? t : Option DisplayFormat) = none := by
    cases hf : (Keyword.ofWord? t : Option DisplayFormat) with
    | none => rfl
    | some f =>
      have hword := congrArg String.toList (Keyword.word_of_ofWord? hf)
      rw [h] at hword
      rcases hc with rfl | rfl | rfl <;> cases f <;> simp [Keyword.word] at hword
  have hmode : t ∉ modes := by
    intro hm
    simp only [modes, List.mem_cons, List.not_mem_nil, or_false] at hm
    rcases hc with rfl | rfl | rfl <;> rcases hm with rfl | rfl | rfl | rfl | rfl | rfl <;>
      simp at h
  rw [Draft.place, hformat]
  exact if_neg hmode

/-! ### Bodies with keys -/

theorem add_of_ofToken? (d : Draft) (t : String) (e : Entry) (h : Entry.ofToken? t = some e) :
    d.add t = d.put e := by
  rw [Draft.add, h]

section Keyed

variable (d : Draft)

/-- A formula without a sign has a key, and one with a sign is a word of its own. -/
theorem add_formula {f : String} (hq : '"' ∉ f.toList) (heq : hasSign f = true → '=' ∉ f.toList) :
    d.add (if hasSign f then Token.ofValue f else (Entry.mk "formula" f).toToken) =
      if hasSign f then { d with words := d.words ++ [f] }
      else { d with formula := some (.ofText f) } := by
  by_cases hs : hasSign f = true
  · rw [if_pos hs, if_pos hs]
    have hentry : Entry.ofToken? (Token.ofValue f) = none := by
      refine Entry.ofToken?_eq_none ?_
      unfold Token.ofValue
      split
      · simpa using heq hs
      · exact heq hs
    -- the token begins with the sign of the formula or with a quote
    have hhead : ∃ c cs, (Token.ofValue f).toList = c :: cs ∧ (c = '+' ∨ c = '-' ∨ c = '"') := by
      unfold Token.ofValue
      split
      · exact ⟨'"', f.toList ++ ['"'], by simp, .inr (.inr rfl)⟩
      · obtain ⟨cs, h⟩ := hasSign_iff.mp hs
        rcases h with h | h
        · exact ⟨_, cs, h, .inl rfl⟩
        · exact ⟨_, cs, h, .inr (.inl rfl)⟩
    obtain ⟨c, cs, hhead, hc⟩ := hhead
    rw [Draft.add, hentry]
    show d.place (Token.ofValue f) = _
    rw [place_of_head hhead hc, Token.toValue_ofValue hq]
  · rw [if_neg hs, if_neg hs, Draft.add, Entry.ofToken?_toToken (Entry.isSound_mk (by decide) hq)]
    rfl

/-- A written entry sets the field of its key. -/
theorem add_entry {v : String} (key : String) (hk : Token.IsWord key) (hq : '"' ∉ v.toList) :
    d.add (Entry.mk key v).toToken = d.put ⟨key, v⟩ :=
  add_of_ofToken? d _ _ (Entry.ofToken?_toToken (Entry.isSound_mk hk hq))

/-! Each entry sets its own field, if it is there. -/

theorem add_activity {o : Option String} (h : ∀ v ∈ o, '"' ∉ v.toList) :
    Entry.putOption Draft.add d (o.map fun v => (Entry.mk "activity" v).toToken) =
      { d with activity := o.or d.activity } := by
  cases o with
  | none => rfl
  | some v => exact add_entry d _ (by decide) (h v rfl)

theorem add_mode {o : Option String} (h : ∀ v ∈ o, '"' ∉ v.toList) :
    Entry.putOption Draft.add d (o.map fun v => (Entry.mk "attackMode" v).toToken) =
      { d with mode := o.or d.mode } := by
  cases o with
  | none => rfl
  | some v => exact add_entry d _ (by decide) (h v rfl)

theorem add_format (o : Option DisplayFormat) :
    Entry.putOption Draft.add d (o.map fun f => (Entry.mk "format" (Keyword.word f)).toToken) =
      { d with format := o.or d.format } := by
  cases o with
  | none => rfl
  | some f =>
    have hadd := add_entry d "format" (by decide) ((Keyword.isPlain_format f).not_mem (.inl rfl))
    refine hadd.trans ?_
    cases f <;> rfl

theorem add_edition (o : Option Edition) :
    Entry.putOption Draft.add d (o.map fun e => (Entry.mk "rules" (Keyword.word e)).toToken) =
      { d with edition := o.or d.edition } := by
  cases o with
  | none => rfl
  | some e =>
    have hadd := add_entry d "rules" (by decide) ((Keyword.isPlain_edition e).not_mem (.inl rfl))
    refine hadd.trans ?_
    cases e <;> rfl

end Keyed

/-- The texts that an attack is made of. -/
def texts (a : Attack) : List String :=
  (a.formula.bind Quantity.formula?).toList ++ a.activity.toList ++ a.mode.toList

theorem mem_texts {s : String} :
    s ∈ a.texts ↔ s ∈ a.formula.bind Quantity.formula? ∨ s ∈ a.activity ∨ s ∈ a.mode := by
  simp only [texts, List.mem_append, Option.mem_toList, Option.mem_def, or_assoc]

/-- The formula that is written holds no mark that the texts of the attack lack. -/
theorem not_mem_writtenFormula {x : Char} (hx : x = '"' ∨ x = ']')
    (h : ∀ s ∈ a.texts, x ∉ s.toList) : ∀ f ∈ a.writtenFormula, x ∉ f.toList := by
  intro f hf
  obtain ⟨hf, -⟩ := Text.filled_eq_some.mp hf
  obtain ⟨q, hq, rfl⟩ := Option.map_eq_some_iff.mp hf
  cases q with
  | number n => exact Numeral.not_mem_writeSigned n hx
  | formula s => exact h s (mem_texts.mpr (.inl (by rw [hq]; rfl)))

/-- What the body with keys says: no empty values. -/
def settled (a : Attack) : Attack :=
  { formula := a.writtenFormula.map Quantity.ofText
    activity := Text.filled a.activity
    mode := Text.filled a.mode
    format := a.format
    edition := a.edition }

/-- What holds of each part that a body with keys may have holds of the parts it has. -/
theorem forall_keyedParts {P : String → Prop}
    (formula : ∀ f ∈ a.writtenFormula,
      P (if hasSign f then Token.ofValue f else (Entry.mk "formula" f).toToken))
    (activity : ∀ v ∈ Text.filled a.activity, P (Entry.mk "activity" v).toToken)
    (mode : ∀ v ∈ Text.filled a.mode, P (Entry.mk "attackMode" v).toToken)
    (format : ∀ f : DisplayFormat, P (Entry.mk "format" (Keyword.word f)).toToken)
    (edition : ∀ e : Edition, P (Entry.mk "rules" (Keyword.word e)).toToken) :
    ∀ p ∈ a.keyedParts, P p := by
  rw [keyedParts, List.forall_mem_filterMap]
  simp only [List.forall_mem_cons, id]
  exact ⟨Option.forall_mem_map.mpr formula, Option.forall_mem_map.mpr activity,
    Option.forall_mem_map.mpr mode, Option.forall_mem_map.mpr fun f _ => format f,
    Option.forall_mem_map.mpr fun e _ => edition e, List.forall_mem_nil _⟩

/-- What is written by key stands in whole tokens. -/
theorem isWhole_keyedParts (quotes : ∀ s ∈ a.texts, '"' ∉ s.toList) :
    ∀ p ∈ a.keyedParts, Token.IsWhole p := by
  have hmem := fun s hs => quotes s (mem_texts.mpr hs)
  have hentry : ∀ {k v : String}, Token.IsWord k → '"' ∉ v.toList →
      Token.IsWhole (Entry.mk k v).toToken :=
    fun hk hv => Entry.isWhole_toToken (Entry.isSound_mk hk hv)
  refine forall_keyedParts (fun f hf => ?_) (fun v hv => hentry (by decide) ?_)
    (fun v hv => hentry (by decide) ?_) (fun f => hentry (by decide) ?_)
    fun e => hentry (by decide) ?_
  · have hq := not_mem_writtenFormula (.inl rfl) quotes f hf
    split
    · exact Token.isWhole_ofValue (Text.filled_eq_some.mp hf).2 hq
    · exact hentry (by decide) hq
  · exact hmem v (.inr (.inl (Text.filled_eq_some.mp hv).1))
  · exact hmem v (.inr (.inr (Text.filled_eq_some.mp hv).1))
  · exact (Keyword.isPlain_format f).not_mem (.inl rfl)
  · exact (Keyword.isPlain_edition e).not_mem (.inl rfl)

/-- A body with keys says everything, where no value holds a quote and no formula with a sign an
equals sign. -/
theorem read_keyed (quotes : ∀ s ∈ a.texts, '"' ∉ s.toList)
    (heq : ∀ f ∈ a.writtenFormula, hasSign f = true → '=' ∉ f.toList) :
    read (Text.spaced a.keyedParts) = a.settled := by
  have hmem := fun s hs => quotes s (mem_texts.mpr hs)
  have hactivity : ∀ v ∈ Text.filled a.activity, '"' ∉ v.toList :=
    fun v hv => hmem v (.inr (.inl (Text.filled_eq_some.mp hv).1))
  have hmode : ∀ v ∈ Text.filled a.mode, '"' ∉ v.toList :=
    fun v hv => hmem v (.inr (.inr (Text.filled_eq_some.mp hv).1))
  rw [read, Token.split_spaced (isWhole_keyedParts quotes), keyedParts, Entry.foldl_filterMap_id]
  simp only [List.foldl_cons, List.foldl_nil]
  rw [add_activity _ hactivity, add_mode _ hmode, add_format, add_edition, settled]
  -- the draft has words only if there is a formula with a sign
  cases hf : a.writtenFormula with
  | none => simp only [Option.map_none, Entry.putOption, Option.elim_none, Option.or_none,
      Draft.finish, if_true]
  | some f =>
    have hadd := add_formula {} (not_mem_writtenFormula (.inl rfl) quotes f hf) (heq f hf)
    simp only [Option.map_some, Entry.putOption, Option.elim_some, hadd]
    by_cases hs : hasSign f = true
    · simp only [if_pos hs, Option.or_none, Draft.finish, List.nil_append, List.cons_ne_nil,
        if_false, Text.spaced, String.intercalate_singleton]
    · simp only [if_neg hs, Option.or_none, Draft.finish, if_true]

/-! ### Bodies without keys -/

/-- A word that is read as a part of the formula and nothing else. -/
def IsTerm (s : String) : Prop :=
  Token.IsWord s ∧ (Keyword.ofWord? s : Option DisplayFormat) = none ∧ s ∉ modes

instance (s : String) : Decidable (IsTerm s) :=
  inferInstanceAs (Decidable
    (Token.IsWord s ∧ (Keyword.ofWord? s : Option DisplayFormat) = none ∧ s ∉ modes))

/-- Terms are collected, one after another, for the formula. -/
theorem foldl_words {ws : List String} (h : ∀ w ∈ ws, IsTerm w) (d : Draft) :
    ws.foldl Draft.add d = { d with words := d.words ++ ws } := by
  induction ws generalizing d with
  | nil => simp
  | cons w ws ih =>
    obtain ⟨hword, hformat, hmode⟩ := h w List.mem_cons_self
    have hvalue : Token.toValue w = w :=
      Token.toValue_of_no_quote fun hq => (hword.2 _ hq).2.2 rfl
    have hadd : d.add w = { d with words := d.words ++ [w] } := by
      rw [Draft.add, Entry.ofToken?_word hword]
      show d.place w = _
      rw [Draft.place, hformat, hvalue]
      exact if_neg hmode
    rw [List.foldl_cons, hadd, ih fun v hv => h v (List.mem_cons_of_mem _ hv)]
    simp

/-- A mode is a word. -/
theorem isWord_mode {m : String} (h : m ∈ modes) : Token.IsWord m := by
  simp only [modes, List.mem_cons, List.not_mem_nil, or_false] at h
  rcases h with rfl | rfl | rfl | rfl | rfl | rfl <;> decide

/-- A known mode sets the mode. -/
theorem add_known_mode {m : String} (h : m ∈ modes) (d : Draft) :
    d.add m = { d with mode := some m } := by
  have hformat : (Keyword.ofWord? m : Option DisplayFormat) = none := by
    have hm := h
    simp only [modes, List.mem_cons, List.not_mem_nil, or_false] at hm
    rcases hm with rfl | rfl | rfl | rfl | rfl | rfl <;> decide
  rw [Draft.add, Entry.ofToken?_word (isWord_mode h)]
  show d.place m = _
  rw [Draft.place, hformat]
  exact if_pos h

/-- The words of a formula, and a mode behind them. -/
theorem read_words {ws : List String} (h : ∀ w ∈ ws, IsTerm w) (hne : ws ≠ [])
    (mode : Option String) (hm : ∀ m ∈ mode, m ∈ modes) :
    (∀ t ∈ ws ++ mode.toList, Token.IsWhole t) ∧
      read (Text.spaced (ws ++ mode.toList)) =
        { formula := some (.ofText (Text.spaced ws)), mode } := by
  have hwhole : ∀ t ∈ ws ++ mode.toList, Token.IsWhole t := by
    intro t ht
    rcases List.mem_append.mp ht with ht | ht
    · exact (h t ht).1.isWhole
    · exact (isWord_mode (hm t (Option.mem_toList.mp ht))).isWhole
  have hlast : ∀ d : Draft, d.mode = none → mode.toList.foldl Draft.add d = { d with mode } := by
    intro d hd
    cases mode with
    | none =>
      show d = { d with mode := none }
      rw [← hd]
    | some m => exact add_known_mode (hm m rfl) d
  refine ⟨hwhole, ?_⟩
  rw [read, Token.split_spaced hwhole, List.foldl_append, foldl_words h, hlast _ rfl, Draft.finish]
  exact if_neg hne

/-- A lone format is read as the format. -/
theorem read_format (f : DisplayFormat) : read (Text.spaced [Keyword.word f]) = { format := f } := by
  cases f <;> decide

end Attack

end RollMarkup
