import Mathlib
import RollMarkup.Proofs.Document.Enclosed
import RollMarkup.Proofs.Field.Values
import RollMarkup.Proofs.Token.Entry
import RollMarkup.Proofs.Vocabulary.Naming

/-!
# Saving throws are read as they were written

A body with keys gives back every field (`read_keyed`), and so does a body without keys, where each
name is a word and no number (`read_bare`). So the canonical text of a saving throw with plain names is
found in a document as that saving throw (`first?_write_save`).
-/

namespace RollMarkup

namespace Save

variable {s : Save}

/-- What the canonical text of a saving throw says: canonical names and no empty values. -/
def settled (s : Save) : Save :=
  { abilities := Selection.ofList? s.abilityNames
    dc := s.dc
    format := s.format
    activity := Text.filled s.activity }

theorem parts_of_positional? {ps : List String} (h : s.positional? = some ps) : s.parts = ps := by
  rw [parts, h]

theorem parts_of_keyed (h : s.positional? = none) : s.parts = s.entries.map Entry.toToken := by
  rw [parts, h]

theorem abilityNames_canonical : s.abilityNames.map Ability.canonical = s.abilityNames := by
  rw [abilityNames, List.map_map, Ability.canonical_comp_canonical]

/-- No ability is written with an empty name. -/
theorem abilityNames_ne_empty : ∀ n ∈ s.abilityNames, n ≠ "" := by
  intro n hn
  obtain ⟨t, ht, rfl⟩ := List.mem_map.mp hn
  exact Ability.canonical_ne_empty (Selection.mem_filled.mp ht).2

/-! ### Bodies with keys -/

theorem add_of_ofToken? (d : Draft) (t : String) (e : Entry) (h : Entry.ofToken? t = some e) :
    d.add t = d.put e := by
  rw [Draft.add, h]

/-- A row of entries is read entry by entry. -/
theorem read_map_toToken {es : List Entry} (h : ∀ e ∈ es, e.IsSound) :
    read (Text.spaced (es.map Entry.toToken)) = (es.foldl Draft.put {}).finish := by
  rw [read, Token.split_spaced (Entry.isWhole_map_toToken h), Entry.foldl_toToken add_of_ofToken? h]

section Keyed

variable (d : Draft)

/-! Each entry sets its own field, if it is there. -/

theorem put_abilities {ns : List String} (h : ∀ n ∈ ns, n ≠ "" ∧ '/' ∉ n.toList) :
    Entry.putOption Draft.put d (Entry.ofList? "ability" ns) =
      { d with abilityList := d.abilityList ++ ns.map Ability.canonical } :=
  Entry.putOption_ofList?
    (fun ns => { d with abilityList := d.abilityList ++ ns.map Ability.canonical }) (by simp)
    (fun _ _ => rfl) h

theorem put_dc {o : Option Quantity} (h : ∀ q ∈ o, q.IsStable) :
    Entry.putOption Draft.put d (o.map fun q => ⟨"dc", q.toText⟩) = { d with dc := o.or d.dc } := by
  cases o with
  | none => rfl
  | some q =>
    show { d with dc := some (Quantity.ofText q.toText) } = _
    rw [h q rfl]
    rfl

theorem put_format (o : Option DisplayFormat) :
    Entry.putOption Draft.put d (o.map fun f => ⟨"format", Keyword.word f⟩) =
      { d with format := o.or d.format } := by
  cases o with
  | none => rfl
  | some f => cases f <;> rfl

theorem put_activity (o : Option String) :
    Entry.putOption Draft.put d (o.map (Entry.mk "activity")) =
      { d with activity := o.or d.activity } := by
  cases o <;> rfl

end Keyed

/-- The entries of a saving throw set every field to what it is settled as. -/
theorem foldl_entries (hn : ∀ n ∈ s.abilityNames, '/' ∉ n.toList) (hdc : ∀ q ∈ s.dc, q.IsStable) :
    (s.entries.foldl Draft.put {}).finish = s.settled := by
  have hn' : ∀ n ∈ s.abilityNames, n ≠ "" ∧ '/' ∉ n.toList :=
    fun n h => ⟨abilityNames_ne_empty n h, hn n h⟩
  rw [entries, Entry.foldl_filterMap_id]
  simp only [List.foldl_cons, List.foldl_nil]
  rw [put_abilities _ hn', put_dc _ hdc, put_format, put_activity]
  simp only [abilityNames_canonical, Option.or_none, List.nil_append, Draft.finish, settled]

/-- What holds of each entry that a saving throw may have holds of the entries it has. -/
theorem forall_entries {P : Entry → Prop}
    (abilities : P ⟨"ability", "/".intercalate s.abilityNames⟩)
    (dc : ∀ q ∈ s.dc, P ⟨"dc", q.toText⟩)
    (format : ∀ f : DisplayFormat, P ⟨"format", Keyword.word f⟩)
    (activity : ∀ a ∈ Text.filled s.activity, P ⟨"activity", a⟩) : ∀ e ∈ s.entries, P e := by
  rw [entries, List.forall_mem_filterMap]
  simp only [List.forall_mem_cons, id]
  exact ⟨Entry.forall_mem_ofList? abilities, Option.forall_mem_map.mpr dc,
    Option.forall_mem_map.mpr fun f _ => format f, Option.forall_mem_map.mpr activity,
    List.forall_mem_nil _⟩

theorem isPlain_key : ∀ e ∈ s.entries, Token.IsPlain e.key := by
  apply forall_entries
  all_goals
    intros
    dsimp only
    decide

/-! ### Characters of a canonical text -/

/-- The texts that a saving throw is made of. -/
def texts (s : Save) : List String :=
  Selection.values s.abilities ++ (s.dc.bind Quantity.formula?).toList ++ s.activity.toList

theorem mem_texts {t : String} :
    t ∈ s.texts ↔ t ∈ Selection.values s.abilities ∨ t ∈ s.dc.bind Quantity.formula? ∨
      t ∈ s.activity := by
  simp only [texts, List.mem_append, Option.mem_toList, Option.mem_def, or_assoc]

section Marks

variable {x : Char} (hx : x = '"' ∨ x = ']') (h : ∀ t ∈ s.texts, x ∉ t.toList)

include hx h

/-- The abilities that are written hold no mark that the texts of the save lack. -/
theorem not_mem_abilityNames : ∀ n ∈ s.abilityNames, x ∉ n.toList := by
  intro n hn
  obtain ⟨t, ht, rfl⟩ := List.mem_map.mp hn
  exact Ability.not_mem_canonical hx (h t (mem_texts.mpr (.inl (Selection.mem_filled.mp ht).1)))

/-- No entry holds a quote or a closing bracket that the saving throw does not hold. -/
theorem not_mem_entries : ∀ e ∈ s.entries, x ∉ e.value.toList := by
  have hmem := fun t ht => h t (mem_texts.mpr ht)
  apply forall_entries
  · exact Entry.not_mem_list hx (not_mem_abilityNames hx h)
  · intro q hq
    refine Quantity.not_mem_toText hx fun t ht => hmem t (.inr (.inl ?_))
    exact Option.bind_eq_some_iff.mpr ⟨q, hq, ht⟩
  · exact fun f => (Keyword.isPlain_format f).not_mem hx
  · exact fun a ha => hmem a (.inr (.inr (Text.filled_eq_some.mp ha).1))

end Marks

/-- A body with keys is read entry by entry, where no value holds a quote. -/
theorem read_entries (quotes : ∀ t ∈ s.texts, '"' ∉ t.toList) :
    (∀ p ∈ s.entries.map Entry.toToken, Token.IsWhole p) ∧
      read (Text.spaced (s.entries.map Entry.toToken)) =
        (s.entries.foldl Draft.put {}).finish := by
  have hsound : ∀ e ∈ s.entries, e.IsSound :=
    fun e he => ⟨(isPlain_key e he).1, not_mem_entries (.inl rfl) quotes e he⟩
  exact ⟨Entry.isWhole_map_toToken hsound, read_map_toToken hsound⟩

/-- A body with keys says everything, where no value holds a quote and no name a slash. -/
theorem read_keyed (quotes : ∀ t ∈ s.texts, '"' ∉ t.toList)
    (hn : ∀ n ∈ s.abilityNames, '/' ∉ n.toList) (hdc : ∀ q ∈ s.dc, q.IsStable) :
    (∀ p ∈ s.entries.map Entry.toToken, Token.IsWhole p) ∧
      read (Text.spaced (s.entries.map Entry.toToken)) = s.settled := by
  obtain ⟨hwhole, hread⟩ := read_entries quotes
  rw [hread, foldl_entries hn hdc]
  exact ⟨hwhole, rfl⟩

/-! ### Bodies without keys -/

/-- A name that can stand without a key: it is read as an ability of that name. -/
structure IsBareName (n : String) : Prop where
  word : Token.IsWord n
  number : Numeral.read? n = none
  canonical : Ability.canonical n = n

/-- A token without a key that is no number is taken for the name of an ability. -/
theorem add_word {w : String} (hkey : '=' ∉ w.toList) (hnumber : Numeral.read? w = none) (d : Draft) :
    d.add w = { d with abilityList := d.abilityList ++ [Ability.canonical w] } := by
  rw [Draft.add, Entry.ofToken?_eq_none hkey]
  show d.place w = _
  unfold Draft.place
  split
  next a ha => rw [Ability.canonical_of_find? ha]
  next ha => rw [hnumber, Ability.canonical_of_unknown ha]

/-- Words that are no numbers are added to the abilities in their order. -/
theorem foldl_words {ws : List String}
    (h : ∀ w ∈ ws, '=' ∉ w.toList ∧ Numeral.read? w = none) (d : Draft) :
    ws.foldl Draft.add d =
      { d with abilityList := d.abilityList ++ ws.map Ability.canonical } := by
  induction ws generalizing d with
  | nil => simp
  | cons w ws ih =>
    obtain ⟨hkey, hnumber⟩ := h w List.mem_cons_self
    rw [List.foldl_cons, add_word hkey hnumber, ih fun v hv => h v (List.mem_cons_of_mem _ hv)]
    simp

/-- Bare names are added to the abilities as they are. -/
theorem foldl_names {ns : List String} (h : ∀ n ∈ ns, IsBareName n) (d : Draft) :
    ns.foldl Draft.add d = { d with abilityList := d.abilityList ++ ns } := by
  have hcanonical : ns.map Ability.canonical = ns := by
    rw [List.map_congr_left fun n hn => (h n hn).canonical, List.map_id']
  rw [foldl_words fun n hn => ⟨fun hc => ((h n hn).word.2 _ hc).2.1 rfl, (h n hn).number⟩,
    hcanonical]

/-- No number is the name of an ability. -/
theorem add_of_read? {w : String} {n : Int64} (hw : Token.IsWord w) (hn : Numeral.read? w = some n)
    (d : Draft) : d.add w = { d with dc := some (.number n) } := by
  rw [Draft.add, Entry.ofToken?_word hw]
  show d.place w = _
  rw [Draft.place, Ability.find?_of_read? hn, hn]

/-- A number sets the difficulty. -/
theorem add_number (d : Draft) (n : Int64) :
    d.add (Numeral.write n) = { d with dc := some (.number n) } :=
  add_of_read? (Numeral.isPlain_write n).1 (Numeral.read?_write n) d

theorem foldl_number (n : Option Int64) {d : Draft} (hd : d.dc = none) :
    (n.toList.map Numeral.write).foldl Draft.add d = { d with dc := n.map Quantity.number } := by
  cases n with
  | none => rw [Option.map_none, ← hd]; rfl
  | some n => exact add_number d n

/-- A body without keys has the names and the difficulty, which is a number. -/
theorem positional?_eq_some {ps : List String} (h : s.positional? = some ps) :
    ∃ n : Option Int64, ps = s.abilityNames ++ n.toList.map Numeral.write ∧
      s.dc = n.map Quantity.number ∧ s.format = none ∧ Text.filled s.activity = none := by
  unfold positional? at h
  split at h
  · cases h
  next hkeys =>
    rw [Bool.or_eq_true, not_or, Option.not_isSome_iff_eq_none, Option.not_isSome_iff_eq_none]
      at hkeys
    rcases hdc : s.dc with _ | n | t <;> rw [hdc] at h
    · obtain rfl := Option.some.inj h
      exact ⟨none, by simp, rfl, hkeys⟩
    · rcases hnames : s.abilityNames with _ | ⟨name, names⟩ <;> rw [hnames] at h
      · cases h
      · obtain rfl := Option.some.inj h
        exact ⟨some n, by simp, rfl, hkeys⟩
    · cases h

/-- A body without keys says everything, where the names can stand without one. -/
theorem read_bare {ps : List String} (h : s.positional? = some ps)
    (hn : ∀ n ∈ s.abilityNames, IsBareName n) :
    (∀ p ∈ ps, Token.IsWhole p) ∧ read (Text.spaced ps) = s.settled := by
  obtain ⟨n, rfl, hdc, hformat, hactivity⟩ := positional?_eq_some h
  have hwhole : ∀ p ∈ s.abilityNames ++ n.toList.map Numeral.write, Token.IsWhole p := by
    intro p hp
    rcases List.mem_append.mp hp with hp | hp
    · exact (hn p hp).word.isWhole
    · obtain ⟨m, -, rfl⟩ := List.mem_map.mp hp
      exact (Numeral.isPlain_write m).1.isWhole
  refine ⟨hwhole, ?_⟩
  rw [read, Token.split_spaced hwhole, List.foldl_append, foldl_names hn, foldl_number n rfl, settled,
    hdc, hformat, hactivity]
  rfl

/-- The parts of a saving throw say everything, where no value holds a quote and the names can stand
where they are written: in a list without a slash behind a key, and without a key as words that are no
numbers. -/
theorem read_parts (quotes : ∀ t ∈ s.texts, '"' ∉ t.toList) (stable : ∀ q ∈ s.dc, q.IsStable)
    (hn : if s.positional? = none then ∀ n ∈ s.abilityNames, '/' ∉ n.toList
      else ∀ n ∈ s.abilityNames, Token.IsWord n ∧ Numeral.read? n = none) :
    (∀ p ∈ s.parts, Token.IsWhole p) ∧ read (Text.spaced s.parts) = s.settled := by
  cases hs : s.positional? with
  | none =>
    rw [if_pos hs] at hn
    rw [parts_of_keyed hs]
    exact read_keyed quotes hn stable
  | some ps =>
    rw [if_neg (by simp [hs])] at hn
    rw [parts_of_positional? hs]
    refine read_bare hs fun n h => ⟨(hn n h).1, (hn n h).2, ?_⟩
    obtain ⟨t, -, rfl⟩ := List.mem_map.mp h
    exact Ability.canonical_canonical t

/-! ### The whole text -/

/-- No part of the body holds a closing bracket that the saving throw does not hold. -/
theorem closed_parts (h : ∀ t ∈ s.texts, ']' ∉ t.toList) : ∀ p ∈ s.parts, ']' ∉ p.toList := by
  cases hs : s.positional? with
  | none =>
    rw [parts_of_keyed hs]
    intro p hp
    obtain ⟨e, he, rfl⟩ := List.mem_map.mp hp
    exact Entry.not_mem_toToken (isPlain_key e he).2.2 (not_mem_entries (.inr rfl) h e he)
  | some ps =>
    rw [parts_of_positional? hs]
    obtain ⟨n, rfl, -⟩ := positional?_eq_some hs
    intro p hp
    rcases List.mem_append.mp hp with hp | hp
    · exact not_mem_abilityNames (.inr rfl) h p hp
    · obtain ⟨m, -, rfl⟩ := List.mem_map.mp hp
      exact (Numeral.isPlain_write m).2.2

/-- The kinds under which a saving throw is written and read. -/
def IsKind (kind : Kind) : Prop :=
  kind = .save ∨ kind = .concentration

variable {kind : Kind}

theorem write_eq (hk : IsKind kind) :
    Command.write kind (.save s) = bracketed (Keyword.word kind) s.parts := by
  rcases hk with rfl | rfl <;> rfl

theorem heading_mem (hk : IsKind kind) : Heading.ofKind kind ∈ Heading.all := by
  rcases hk with rfl | rfl <;> decide

/-- The canonical text of a saving throw is found as a whole, if no text in it closes the brackets. -/
theorem isReadable (hk : IsKind kind) (closed : ∀ t ∈ s.texts, ']' ∉ t.toList) :
    Command.IsReadable kind (.save s) :=
  Occurrence.isReadable_of_closed (heading_mem hk) (write_eq hk) (closed_parts closed)

/-- A saving throw whose parts are whole tokens is read from them. -/
theorem first?_of_read (hk : IsKind kind) {d : Save} (closed : ∀ t ∈ s.texts, ']' ∉ t.toList)
    (whole : ∀ p ∈ s.parts, Token.IsWhole p) (hread : read (Text.spaced s.parts) = d) :
    Occurrence.first? (Command.write kind (.save s)) =
      some (Occurrence.whole kind (.save d) (Command.write kind (.save s))) := by
  have hcommand : Command.read kind none (Text.spaced s.parts) = .save d := by
    rw [← hread]
    rcases hk with rfl | rfl <;> rfl
  exact Occurrence.first?_of_parts (heading_mem hk) (write_eq hk) (closed_parts closed) whole hcommand

/-- A saving throw whose abilities are plain words and no numbers, and whose other texts can stand
between quotes. A difficulty that is a text does not look like a number. -/
structure IsPlain (s : Save) : Prop where
  abilities : ∀ a ∈ Selection.filled s.abilities, Token.IsPlain a ∧ Numeral.read? a = none
  dc : ∀ t, s.dc = some (.formula t) → Token.IsQuotable t ∧ Numeral.read? t = none
  activity : ∀ a ∈ s.activity, Token.IsQuotable a

theorem IsPlain.texts (h : s.IsPlain) : ∀ t ∈ s.texts, Token.IsQuotable t := by
  intro t ht
  rcases mem_texts.mp ht with ht | ht | ht
  · exact Selection.forall_mem_values (P := Token.IsQuotable) (by decide)
      (fun a ha => (h.abilities a ha).1.isQuotable) t ht
  · exact (h.dc t (Quantity.eq_of_mem_formula? ht)).1
  · exact h.activity t ht

theorem IsPlain.isStable (h : s.IsPlain) : ∀ q ∈ s.dc, q.IsStable := by
  rintro q hq
  refine Quantity.isStable_of_formula fun t ht => ?_
  rw [ht] at hq
  exact (h.dc t hq).2

/-- A canonical name is the name of an ability or the one it was made from, and neither is a number. -/
theorem IsPlain.abilityNames (h : s.IsPlain) :
    ∀ n ∈ s.abilityNames, Token.IsPlain n ∧ Numeral.read? n = none := by
  intro n hn
  obtain ⟨t, ht, rfl⟩ := List.mem_map.mp hn
  cases hf : Ability.find? t with
  | none =>
    rw [Ability.canonical_of_unknown hf]
    exact h.abilities t ht
  | some a =>
    rw [Ability.canonical_of_find? hf]
    exact ⟨Ability.isPlain_name a, Ability.read?_name a⟩

/-- The canonical text of a saving throw with plain names is read as that saving throw: with its names
made canonical and without empty values. The difficulty is always kept. -/
theorem first?_write_save (hk : IsKind kind) (h : s.IsPlain) :
    Occurrence.first? (Command.write kind (.save s)) =
      some (Occurrence.whole kind (.save s.settled) (Command.write kind (.save s))) := by
  have hnames := h.abilityNames
  obtain ⟨hwhole, hread⟩ := read_parts (fun t ht => (h.texts t ht).1) h.isStable (by
    split
    · exact fun n hn => (hnames n hn).1.2.1
    · exact fun n hn => ⟨(hnames n hn).1.1, (hnames n hn).2⟩)
  exact first?_of_read hk (fun t ht => (h.texts t ht).2) hwhole hread

/-- A known ability and one of the house, with a difficulty that is a formula with spaces. -/
def sanity : Save :=
  { abilities := some (.many ["WIS", "", "sanity"])
    dc := some (.formula "8 + @prof")
    activity := some "" }

/-- The abilities come back under their canonical names, and the difficulty as a formula. -/
theorem first?_write_sanity :
    sanity.IsPlain ∧
      Occurrence.first? (Command.write .concentration (.save sanity)) =
        some (Occurrence.whole .concentration
          (.save { abilities := some (.many ["wisdom", "sanity"]), dc := some (.formula "8 + @prof") })
          "[[/concentration ability=wisdom/sanity dc=\"8 + @prof\"]]") := by
  have h : sanity.IsPlain :=
    { abilities := by decide
      dc := by
        intro t ht
        obtain rfl : "8 + @prof" = t := by simpa [sanity] using ht
        decide
      activity := by decide }
  exact ⟨h, first?_write_save (.inr rfl) h⟩

end Save

end RollMarkup
