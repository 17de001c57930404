import Mathlib
import RollMarkup.Proofs.Command.Damage.Separator
import RollMarkup.Proofs.Token.Suffix

/-!
# Bodies of damage rolls

A body with keys gives back every field (`read_keyed`). A body without keys is a row of tokens with
settings behind it (`read_follows`): one roll (`read_single`) or several with ampersands between them
(`read_several`). Where the formula of a roll ends and its types begin is found again, if its words go on with it
and the first type does not (`cutFormula_append`).
-/

namespace RollMarkup

namespace Damage

/-! ### Formula and types -/

/-- A word that has no meaning of its own in a body without keys. -/
def IsTerm (s : String) : Prop :=
  Token.IsWord s ∧ s ≠ "&" ∧ s ≠ "average"

instance (s : String) : Decidable (IsTerm s) :=
  inferInstanceAs (Decidable (Token.IsWord s ∧ s ≠ "&" ∧ s ≠ "average"))

/-- The formula and the types are the tokens that were cut. -/
theorem cutFormula_fst_append_snd (ts : List String) :
    (cutFormula ts).1 ++ (cutFormula ts).2 = ts := by
  unfold cutFormula
  split
  · rfl
  · split
    · rfl
    · rw [List.cons_append, List.takeWhile_append_dropWhile]

/-- The formula goes on until the first word that does not continue it. -/
theorem cutFormula_append {w : String} {ws types : List String} (hw : isType w = false)
    (hws : ∀ v ∈ ws, continuesFormula v = true)
    (ht : ∀ t ∈ types.head?, continuesFormula t = false) :
    cutFormula (w :: ws ++ types) = (w :: ws, types) := by
  have hstop : types.takeWhile continuesFormula = [] ∧ types.dropWhile continuesFormula = types := by
    cases types with
    | nil => exact ⟨rfl, rfl⟩
    | cons t ts =>
      have hc := ht t rfl
      exact ⟨by simp [hc], by simp [hc]⟩
  rw [List.cons_append, cutFormula, hw, if_neg Bool.false_ne_true,
    List.takeWhile_append_of_pos hws, List.dropWhile_append_of_pos hws, hstop.1, hstop.2,
    List.append_nil]

/-- Where the first word is a known type, there is no formula. -/
theorem cutFormula_types {types : List String} (h : ∀ t ∈ types.head?, isType t = true) :
    cutFormula types = ([], types) := by
  cases types with
  | nil => rfl
  | cons t ts => rw [cutFormula, if_pos (h t rfl)]

/-! ### Bodies without keys -/

/-- A term is no setting. -/
theorem isSetting_term {w : String} (h : IsTerm w) : Suffix.isSetting w = false :=
  Suffix.isSetting_word h.1 h.2.2

/-- The first token of a body without keys has none. -/
theorem read_of_split {body t : String} {ts : List String} (h : Token.split body = t :: ts)
    (ht : Entry.ofToken? t = none) : read body = readPositional body (t :: ts) := by
  rw [read, h]
  show (if (Entry.ofToken? t).isSome then _ else readPositional body (t :: ts)) = _
  rw [ht]
  rfl

/-- Without tokens there is nothing to read, and no separator either. -/
theorem read_of_no_tokens {b : String} (h : Token.split b = []) :
    read b = {} ∧ hasSeveral b.toList = false := by
  refine ⟨by rw [read, h], ?_⟩
  have hempty : Token.splitChars b.toList = [] := List.map_eq_nil_iff.mp h
  rw [← Bool.not_eq_true]
  intro hseveral
  rcases mem_or_exists_of_hasSeveral hseveral with hmem | ⟨t, ht, -⟩
  · rw [hempty] at hmem
    cases hmem
  · rw [hempty] at ht
    cases ht

/-- A body whose first token has no key is read without keys, and so is one without tokens. -/
theorem read_of_bare {body : String} (h : ∀ t ∈ (Token.split body).head?, '=' ∉ t.toList) :
    read body = readPositional body (Token.split body) := by
  cases hsplit : Token.split body with
  | nil =>
    obtain ⟨hread, hone⟩ := read_of_no_tokens hsplit
    rw [hread, readPositional, hone]
    rfl
  | cons t ts =>
    rw [hsplit] at h
    exact read_of_split hsplit (Entry.ofToken?_eq_none (h t rfl))

/-- The single roll that a row of tokens with settings behind it is. -/
def lone (ts : List String) (s : Suffix) : Damage :=
  { formula := Text.filled? (Text.spaced (cutFormula ts).1)
    types := Selection.ofList? (cutFormula ts).2
    average := Average.kept s.average
    activity := s.activity
    format := s.format }

/-- The several rolls that a row of tokens with settings behind it is: those between the ampersands. -/
def several (ts : List String) (s : Suffix) : Damage :=
  { average := Average.kept s.average
    activity := s.activity
    format := s.format
    rolls := ((ts.splitOn "&").filter (· ≠ [])).map rollOf }

/-- A row of tokens with settings behind it is read as several rolls where the separator is seen, and as a
single one elsewhere. -/
theorem read_follows {ts : List String} {s : Suffix} (hs : s.IsSound) (h : s.Follows ts) :
    read (Text.spaced (ts ++ s.tokens)) =
      if hasSeveral (Text.spaced (ts ++ s.tokens)).toList = true then several ts s else lone ts s := by
  have hsplit := Token.split_spaced (h.isWhole hs)
  have hread := read_of_bare (by rw [hsplit]; exact h.head)
  rw [hread, hsplit, readPositional, h.cut hs]
  rfl

/-- One roll, and whether its average is shown. -/
theorem read_single {ts : List String} (h : ∀ t ∈ ts, IsTerm t) {a : Option Average}
    (ha : a.any Average.replacesComputed = false) :
    (∀ t ∈ ts ++ Average.positional a, Token.IsWhole t) ∧
      read (Text.spaced (ts ++ Average.positional a)) =
        { formula := Text.filled? (Text.spaced (cutFormula ts).1)
          types := Selection.ofList? (cutFormula ts).2
          average := Average.kept a } := by
  have hsound := Suffix.isSound_flag ha
  have hfollows := Suffix.follows_flag ha fun t ht => ⟨(h t ht).1, (h t ht).2.2⟩
  have hword : ∀ t ∈ ts ++ Average.positional a, Token.IsWord t ∧ t ≠ "&" := by
    intro t ht
    rcases List.mem_append.mp ht with ht | ht
    · exact ⟨(h t ht).1, (h t ht).2.1⟩
    · rw [Average.mem_positional ha ht]
      decide
  have hone : hasSeveral (Text.spaced (ts ++ Average.positional a)).toList = false := by
    have hiff := hasSeveral_row_iff hword (List.forall_mem_nil _)
    rw [List.append_nil] at hiff
    simpa using hiff
  have hread := read_follows hsound hfollows
  rw [Suffix.tokens_flag, hone] at hread
  exact ⟨fun t ht => (hword t ht).1.isWhole, hread⟩

/-- Rolls with ampersands between them are joined as their tokens are. -/
theorem intercalate_spaced {groups : List (List String)} (h : ∀ g ∈ groups, g ≠ []) :
    " & ".intercalate (groups.map Text.spaced) = Text.spaced (["&"].intercalate groups) := by
  induction groups with
  | nil => rfl
  | cons g gs ih =>
    have hgs := ih fun f hf => h f (List.mem_cons_of_mem _ hf)
    cases gs with
    | nil => simp
    | cons f fs =>
      have hg : g ≠ [] := h g List.mem_cons_self
      have hne : ["&"].intercalate (f :: fs) ≠ [] := Token.intercalate_ne_nil (h f (by simp)) fs
      have hsep : " & " = " " ++ "&" ++ " " := rfl
      rw [List.map_cons, List.map_cons, String.intercalate_cons_cons, ← List.map_cons, hgs,
        List.intercalate_cons_cons, List.append_assoc, Text.spaced, Text.spaced, Text.spaced,
        String.intercalate_append_of_ne_nil hg (by simp),
        String.intercalate_append_of_ne_nil (by simp) hne, String.intercalate_singleton, hsep]
      simp only [String.append_assoc]

/-- The first separator stands between the first roll and the second. -/
theorem hasSeveral_groups {groups : List (List String)} (hlen : 2 ≤ groups.length)
    (hne : ∀ g ∈ groups, g ≠ []) (rest : List String) :
    hasSeveral (Text.spaced (["&"].intercalate groups ++ rest)).toList = true := by
  obtain ⟨f, g, gs, rfl⟩ : ∃ f g gs, groups = f :: g :: gs := by
    rcases groups with _ | ⟨f, _ | ⟨g, gs⟩⟩
    · simp at hlen
    · simp at hlen
    · exact ⟨f, g, gs, rfl⟩
  have hrest : ["&"].intercalate (g :: gs) ++ rest ≠ [] :=
    List.append_ne_nil_of_left_ne_nil (Token.intercalate_ne_nil (hne g (by simp)) gs) _
  have htext : Text.spaced (["&"].intercalate (f :: g :: gs) ++ rest) =
      Text.spaced f ++ " " ++ ("&" ++ " " ++
        Text.spaced (["&"].intercalate (g :: gs) ++ rest)) := by
    rw [List.intercalate_cons_cons, List.append_assoc, List.append_assoc, Text.spaced,
      Text.spaced, Text.spaced, String.intercalate_append_of_ne_nil (hne f (by simp)) (by simp),
      String.intercalate_append_of_ne_nil (by simp) hrest, String.intercalate_singleton]
  rw [htext, hasSeveral_iff]
  exact ⟨(Text.spaced f).toList, (Text.spaced (["&"].intercalate (g :: gs) ++ rest)).toList, by simp⟩

section Groups

variable {groups : List (List String)} (hsome : groups ≠ [])
  (h : ∀ g ∈ groups, g ≠ [] ∧ ∀ t ∈ g, IsTerm t) {s : Suffix}

include hsome h

/-- Settings can stand behind rolls of terms with ampersands between them. -/
theorem follows_groups : s.Follows (["&"].intercalate groups) := by
  refine Suffix.follows_of_words (fun t ht => ?_) fun hnil => ?_
  · rcases Token.mem_of_mem_intercalate ht with ht | ⟨g, hg, ht⟩
    · rw [List.mem_singleton.mp ht]
      decide
    · exact ⟨((h g hg).2 t ht).1, ((h g hg).2 t ht).2.2⟩
  · obtain ⟨g, gs, rfl⟩ := List.exists_cons_of_ne_nil hsome
    exact absurd hnil (Token.intercalate_ne_nil (h g List.mem_cons_self).1 gs)

/-- Terms are no ampersands, so that rolls of them are found again between the ampersands. -/
theorem splitOn_groups :
    (["&"].intercalate groups).splitOn "&" = groups :=
  List.splitOn_intercalate "&" (fun g hg hamp => ((h g hg).2 _ hamp).2.1 rfl) hsome

/-- Rolls are read one by one where the row holds the separator. -/
theorem several_groups :
    several (["&"].intercalate groups) s =
      { average := Average.kept s.average
        format := s.format
        activity := s.activity
        rolls := groups.map rollOf } := by
  have hfilter : groups.filter (· ≠ []) = groups := by
    rw [List.filter_eq_self]
    exact fun g hg => decide_eq_true (h g hg).1
  rw [several, splitOn_groups hsome h, hfilter]

end Groups

/-- Several rolls, and the settings behind them. -/
theorem read_several {groups : List (List String)} (hlen : 2 ≤ groups.length)
    (h : ∀ g ∈ groups, g ≠ [] ∧ ∀ t ∈ g, IsTerm t) {s : Suffix} (hs : s.IsSound) :
    (∀ t ∈ ["&"].intercalate groups ++ s.tokens, Token.IsWhole t) ∧
      read (Text.spaced (["&"].intercalate groups ++ s.tokens)) =
        { average := Average.kept s.average
          format := s.format
          activity := s.activity
          rolls := groups.map rollOf } := by
  have hsome : groups ≠ [] := by
    rintro rfl
    cases hlen
  have hfollows := follows_groups hsome h (s := s)
  refine ⟨hfollows.isWhole hs, ?_⟩
  rw [read_follows hs hfollows, if_pos (hasSeveral_groups hlen (fun g hg => (h g hg).1) s.tokens),
    several_groups hsome h]

/-! ### Bodies with keys -/

theorem add_of_ofToken? (d : Damage) (t : String) (e : Entry) (h : Entry.ofToken? t = some e) :
    d.add t = d.put e := by
  rw [add, h]

/-- A body whose first token has a key, if there is one, is read token by token. -/
theorem read_of_key {body : String} {ts : List String} (h : Token.split body = ts)
    (key : ∀ t ∈ ts.head?, '=' ∈ t.toList) : read body = ts.foldl add {} := by
  rw [read, h]
  cases ts with
  | nil => rfl
  | cons t ts => exact if_pos (Entry.isSome_ofToken? (key t rfl))

/-- A row of entries is read entry by entry. -/
theorem read_map_toToken {es : List Entry} (h : ∀ e ∈ es, e.IsSound) :
    read (Text.spaced (es.map Entry.toToken)) = es.foldl put {} := by
  have hkey : ∀ t ∈ (es.map Entry.toToken).head?, '=' ∈ t.toList := fun t ht =>
    Entry.equals_mem_of_mem_map (List.mem_of_head? ht)
  rw [read_of_key (Token.split_spaced (Entry.isWhole_map_toToken h)) hkey,
    Entry.foldl_toToken add_of_ofToken? h]

variable {d : Damage}

/-- What the canonical text of a damage roll says: no empty values and no average that is not shown.
Several rolls stand in place of the single one. -/
def settled (d : Damage) : Damage :=
  let settings : Damage :=
    { average := Average.kept d.average, activity := Text.filled d.activity, format := d.format }
  if d.rolls = [] then
    { settings with
      formula := Text.filled d.formula
      types := Selection.ofList? (Selection.filled d.types) }
  else
    { settings with
      rolls := d.rolls.map fun r => ⟨r.formula, Selection.ofList? (Selection.filled r.types)⟩ }

section Keyed

variable (e : Damage)

/-! Each entry sets its own field, if it is there. -/

theorem put_formula (o : Option String) :
    Entry.putOption put e (o.map (Entry.mk "formula")) =
      { e with formula := o.or e.formula } := by
  cases o <;> rfl

theorem put_types {ts : List String} (h : ∀ t ∈ ts, t ≠ "" ∧ '/' ∉ t.toList) :
    Entry.putOption put e (Entry.ofList? "type" ts) =
      { e with types := (Selection.ofList? ts).or e.types } := by
  refine Entry.putOption_ofList? (fun ts => { e with types := (Selection.ofList? ts).or e.types })
    rfl (fun v hv => ?_) h
  obtain ⟨t, ts, hts⟩ := List.exists_cons_of_ne_nil hv
  show { e with types := Selection.ofList? (Entry.valueList v) } = _
  rw [hts]
  cases ts <;> rfl

theorem put_average {a : Option Average} (h : ∀ b ∈ a, b.IsStable) :
    Entry.putOption put e (Average.entry? a) =
      { e with average := (Average.kept a).or e.average } := by
  rw [Average.putOption_of_isStable (fun b => { e with average := some b }) (fun _ => rfl) h]
  cases Average.kept a <;> rfl

theorem put_activity (o : Option String) :
    Entry.putOption put e (o.map (Entry.mk "activity")) =
      { e with activity := o.or e.activity } := by
  cases o <;> rfl

theorem put_format (o : Option DisplayFormat) :
    Entry.putOption put e (o.map fun f => ⟨"format", Keyword.word f⟩) =
      { e with format := o.or e.format } := by
  cases o with
  | none => rfl
  | some f => cases f <;> rfl

end Keyed

/-- The entries of a single roll set every field to what it is settled as. -/
theorem foldl_entries (hrolls : d.rolls = [])
    (ht : ∀ t ∈ Selection.filled d.types, '/' ∉ t.toList) (ha : ∀ a ∈ d.average, a.IsStable) :
    d.entries.foldl put {} = d.settled := by
  have ht' : ∀ t ∈ Selection.filled d.types, t ≠ "" ∧ '/' ∉ t.toList :=
    fun t h => ⟨(Selection.mem_filled.mp h).2, ht t h⟩
  rw [entries, Entry.foldl_filterMap_id]
  simp only [List.foldl_cons, List.foldl_nil]
  rw [put_formula, put_types _ ht', put_average _ ha, put_activity, put_format, settled,
    if_pos hrolls]
  simp only [Option.or_none]

/-- What holds of each entry that a damage roll may have holds of the entries it has. -/
theorem forall_entries {P : Entry → Prop} (formula : ∀ f ∈ Text.filled d.formula, P ⟨"formula", f⟩)
    (types : P ⟨"type", "/".intercalate (Selection.filled d.types)⟩)
    (average : ∀ a ∈ d.average, P ⟨"average", a.toText⟩)
    (activity : ∀ a ∈ Text.filled d.activity, P ⟨"activity", a⟩)
    (format : ∀ f : DisplayFormat, P ⟨"format", Keyword.word f⟩) : ∀ e ∈ d.entries, P e := by
  rw [entries, List.forall_mem_filterMap]
  simp only [List.forall_mem_cons, id]
  exact ⟨Option.forall_mem_map.mpr formula, Entry.forall_mem_ofList? types,
    Average.forall_mem_entry? average, Option.forall_mem_map.mpr activity,
    Option.forall_mem_map.mpr fun f _ => format f, List.forall_mem_nil _⟩

theorem isPlain_key : ∀ e ∈ d.entries, Token.IsPlain e.key := by
  apply forall_entries
  all_goals
    intros
    dsimp only
    decide

/-! ### Characters of a canonical text -/

/-- The texts that a damage roll is made of. -/
def texts (d : Damage) : List String :=
  d.formula.toList ++ Selection.values d.types ++ (d.average.bind Average.formula?).toList ++
    d.activity.toList ++ d.rolls.flatMap fun r => r.formula :: Selection.values r.types

theorem mem_texts {s : String} :
    s ∈ d.texts ↔ s ∈ d.formula ∨ s ∈ Selection.values d.types ∨
      s ∈ d.average.bind Average.formula? ∨ s ∈ d.activity ∨
      ∃ r ∈ d.rolls, s = r.formula ∨ s ∈ Selection.values r.types := by
  simp only [texts, List.mem_append, Option.mem_toList, Option.mem_def, List.mem_flatMap,
    List.mem_cons, or_assoc]

/-- No entry holds a quote or a closing bracket that the damage roll does not hold. -/
theorem not_mem_entries {x : Char} (hx : x = '"' ∨ x = ']') (h : ∀ s ∈ d.texts, x ∉ s.toList) :
    ∀ e ∈ d.entries, x ∉ e.value.toList := by
  have hmem := fun s hs => h s (mem_texts.mpr hs)
  apply forall_entries
  · exact fun f hf => hmem f (.inl (Text.filled_eq_some.mp hf).1)
  · exact Entry.not_mem_list hx fun t ht => hmem t (.inr (.inl (Selection.mem_filled.mp ht).1))
  · intro a ha
    refine Average.not_mem_toText hx fun s hs => hmem s (.inr (.inr (.inl ?_)))
    exact Option.bind_eq_some_iff.mpr ⟨a, ha, hs⟩
  · exact fun a ha => hmem a (.inr (.inr (.inr (.inl (Text.filled_eq_some.mp ha).1))))
  · exact fun f => (Keyword.isPlain_format f).not_mem hx

/-- A body with keys says everything, where no value holds a quote and no type a slash. -/
theorem read_keyed (hrolls : d.rolls = []) (quotes : ∀ s ∈ d.texts, '"' ∉ s.toList)
    (ht : ∀ t ∈ Selection.filled d.types, '/' ∉ t.toList) (ha : ∀ a ∈ d.average, a.IsStable) :
    (∀ p ∈ d.entries.map Entry.toToken, Token.IsWhole p) ∧
      read (Text.spaced (d.entries.map Entry.toToken)) = d.settled := by
  have hsound : ∀ e ∈ d.entries, e.IsSound :=
    fun e he => ⟨(isPlain_key e he).1, not_mem_entries (.inl rfl) quotes e he⟩
  refine ⟨Entry.isWhole_map_toToken hsound, ?_⟩
  rw [read_map_toToken hsound, foldl_entries hrolls ht ha]

end Damage

end RollMarkup
