import Mathlib
import RollMarkup.Proofs.Command.Check
import RollMarkup.Proofs.Command.Save
import RollMarkup.Proofs.Token.Layout

/-!
# Names of several words

Behind a key a list of names stands in quotes if one of them holds a blank, but without keys the names
stand as they are. So a saving throw or a check gives back its names if it is written with keys or each
name is one word (`first?_write_phrases`); without keys a name of two words is read as two names
(`not_first?_write_phrases`).
-/

namespace RollMarkup

/-! ### Phrases -/

/-- A name of one word or several: it holds no mark that ends a value, and none of its words is a
number. -/
structure IsPhrase (s : String) : Prop where
  quotable : Token.IsQuotable s
  slash : '/' ∉ s.toList
  equals : '=' ∉ s.toList
  number : ∀ w ∈ Token.split s, Numeral.read? w = none

namespace IsPhrase

variable {s : String}

theorem isBalanced (h : IsPhrase s) : Token.IsBalanced s.toList := by
  rw [Token.IsBalanced, List.count_eq_zero.mpr h.quotable.1]

theorem of_isPlain (h : Token.IsPlain s) (hnumber : Numeral.read? s = none) : IsPhrase s where
  quotable := h.isQuotable
  slash := h.2.1
  equals := fun hc => (h.1.2 _ hc).2.1 rfl
  number := by
    rw [Token.split_of_no_blank h.1.1 fun c hc => (h.1.2 c hc).1]
    intro w hw
    rwa [List.mem_singleton.mp hw]

/-- A word of a phrase has no key and is no number. -/
theorem word (h : IsPhrase s) {w : String} (hw : w ∈ Token.split s) :
    '=' ∉ w.toList ∧ Numeral.read? w = none :=
  ⟨Token.not_mem_split h.equals w hw, h.number w hw⟩

end IsPhrase

/-- Names come back from their words if each is one word, and only then: a word holds no blank, nor does
the name it is taken for. -/
theorem map_words_eq_iff {f : String → String} {names : List String}
    (hnames : ∀ n ∈ names, n ≠ "" ∧ '"' ∉ n.toList) (hf : names.map f = names)
    (hblank : ∀ w : String, (∀ c ∈ w.toList, Text.isBlank c = false) →
      ∀ c ∈ (f w).toList, Text.isBlank c = false) :
    (names.flatMap Token.split).map f = names ↔
      ∀ n ∈ names, ∀ c ∈ n.toList, Text.isBlank c = false := by
  constructor
  · intro hsame n hn
    rw [← hsame] at hn
    obtain ⟨w, hw, rfl⟩ := List.mem_map.mp hn
    obtain ⟨m, hm, hw⟩ := List.mem_flatMap.mp hw
    exact hblank w (Token.isBlank_of_mem_split hw (Token.not_mem_split (hnames m hm).2 w hw))
  · intro hwords
    have hlone : ∀ n ∈ names, Token.split n = [n] :=
      fun n hn => Token.split_of_no_blank (hnames n hn).1 (hwords n hn)
    rw [Token.flatMap_split hlone, hf]

theorem Numeral.flatMap_split_write (n : Option Int64) :
    (n.toList.map write).flatMap Token.split = n.toList.map write := by
  cases n with
  | none => rfl
  | some n =>
    have hword := (isPlain_write n).1
    have hsplit := Token.split_of_no_blank hword.1 fun c hc => (hword.2 c hc).1
    simp [hsplit]

/-- A row of phrases with a number behind them is found as a whole, and what is read of it are the words
of the phrases and the number. -/
theorem Occurrence.first?_phrases {kind : Kind} (hk : Heading.ofKind kind ∈ Heading.all)
    {names : List String} (hnames : ∀ n ∈ names, IsPhrase n) (n : Option Int64) :
    ∃ body, Token.split body = names.flatMap Token.split ++ n.toList.map Numeral.write ∧
      first? (bracketed (Keyword.word kind) (names ++ n.toList.map Numeral.write)) =
        some (whole kind (Command.read kind none body)
          (bracketed (Keyword.word kind) (names ++ n.toList.map Numeral.write))) := by
  have hrow : ∀ p ∈ names ++ n.toList.map Numeral.write,
      ']' ∉ p.toList ∧ Token.IsBalanced p.toList := by
    intro p hp
    rcases List.mem_append.mp hp with hp | hp
    · exact ⟨(hnames p hp).quotable.2, (hnames p hp).isBalanced⟩
    · obtain ⟨m, -, rfl⟩ := List.mem_map.mp hp
      have hnumber := Numeral.isPlain_write m
      exact ⟨hnumber.2.2, Token.isBalanced_of_closes hnumber.1.isWhole.2⟩
  obtain ⟨body, hsplit, hfound⟩ := first?_of_balanced hk (fun p hp => (hrow p hp).1)
    fun p hp => (hrow p hp).2
  rw [List.flatMap_append, Numeral.flatMap_split_write] at hsplit
  exact ⟨body, hsplit, hfound⟩

namespace Save

variable {kind : Kind} {s : Save}

/-- A saving throw against abilities that are phrases, with a number for a difficulty and a format, each
of them present or not. -/
structure IsPhrased (s : Save) : Prop where
  abilities : ∀ a ∈ Selection.values s.abilities, IsPhrase a
  dc : s.dc.bind Quantity.formula? = none
  activity : s.activity = none

/-- The canonical names of abilities that are phrases are phrases. -/
theorem IsPhrased.abilityNames (h : s.IsPhrased) : ∀ n ∈ s.abilityNames, IsPhrase n := by
  intro n hn
  obtain ⟨a, ha, rfl⟩ := List.mem_map.mp hn
  cases hf : Ability.find? a with
  | none =>
    rw [Ability.canonical_of_unknown hf]
    exact h.abilities a (Selection.mem_filled.mp ha).1
  | some b =>
    rw [Ability.canonical_of_find? hf]
    exact .of_isPlain (Ability.isPlain_name b) (Ability.read?_name b)

theorem IsPhrased.texts (h : s.IsPhrased) : ∀ t ∈ s.texts, Token.IsQuotable t := by
  intro t ht
  rcases mem_texts.mp ht with ht | ht | ht
  · exact (h.abilities t ht).quotable
  · rw [h.dc] at ht
    cases ht
  · rw [h.activity] at ht
    cases ht

/-- Without a format there are keys only where there is no name at all. -/
theorem IsPhrased.abilityNames_of_keyed (h : s.IsPhrased) (hs : s.positional? = none)
    (hformat : s.format = none) : s.abilityNames = [] := by
  have hdc := h.dc
  unfold positional? at hs
  rw [hformat, h.activity] at hs
  rcases hd : s.dc with _ | n | t <;> rw [hd] at hs hdc
  · cases hs
  · cases hnames : s.abilityNames with
    | nil => rfl
    | cons n ns =>
      rw [hnames] at hs
      cases hs
  · cases hdc

/-- The abilities of a saving throw come back with a format, which needs keys, and as their words
without. -/
theorem first?_phrases (hk : IsKind kind) (h : s.IsPhrased) :
    ∃ d : Save, Occurrence.first? (Command.write kind (.save s)) =
        some (Occurrence.whole kind (.save d) (Command.write kind (.save s))) ∧
      Selection.values d.abilities =
        if s.format.isSome then s.abilityNames
        else (s.abilityNames.flatMap Token.split).map Ability.canonical := by
  have hnames := h.abilityNames
  cases hs : s.positional? with
  | none =>
    -- the names stand behind a key, in quotes where they need them
    obtain ⟨hwhole, hread⟩ := read_keyed (fun t ht => (h.texts t ht).1)
      (fun n hn => (hnames n hn).slash) (Quantity.isStable_of_bind h.dc)
    rw [← parts_of_keyed hs] at hwhole hread
    refine ⟨s.settled, first?_of_read hk (fun t ht => (h.texts t ht).2) hwhole hread, ?_⟩
    show Selection.values (Selection.ofList? s.abilityNames) = _
    rw [Selection.values_ofList?]
    split
    · rfl
    next hformat => rw [h.abilityNames_of_keyed hs (by simpa using hformat)]; rfl
  | some ps =>
    -- the names stand as they are, and each of their words is added as a name
    obtain ⟨n, rfl, hdc, hformat, -⟩ := positional?_eq_some hs
    obtain ⟨body, hsplit, hfound⟩ := Occurrence.first?_phrases (heading_mem hk) hnames n
    have hcommand : Command.read kind none body = .save (read body) := by
      rcases hk with rfl | rfl <;> rfl
    have hwords : ∀ w ∈ s.abilityNames.flatMap Token.split,
        '=' ∉ w.toList ∧ Numeral.read? w = none := by
      intro w hw
      obtain ⟨n, hn, hw⟩ := List.mem_flatMap.mp hw
      exact (hnames n hn).word hw
    refine ⟨read body, ?_, ?_⟩
    · rw [write_eq hk, parts_of_positional? hs, ← hcommand]
      exact hfound
    · rw [read, hsplit, List.foldl_append, foldl_words hwords, foldl_number n rfl, hformat]
      exact Selection.values_ofList? _

end Save

namespace Check

variable {kind : Kind} {c : Check}

/-- A check without an ability, of skills that are phrases with no ability among their words, with a
number for a difficulty, a format and an edition, each of them present or not. -/
structure IsPhrased (c : Check) : Prop where
  ability : c.ability = none
  skills : ∀ s ∈ Selection.values c.skills, IsPhrase s ∧ ∀ w ∈ Token.split s, Ability.find? w = none
  dc : c.dc.bind Quantity.formula? = none
  tools : c.tools = none
  vehicle : c.vehicle = none
  passive : c.passive = none
  activity : c.activity = none

/-- The canonical names of skills that are phrases are phrases. -/
theorem IsPhrased.skillNames (h : c.IsPhrased) :
    ∀ n ∈ c.skillNames, IsPhrase n ∧ ∀ w ∈ Token.split n, Ability.find? w = none := by
  intro n hn
  obtain ⟨s, hs, rfl⟩ := List.mem_map.mp hn
  cases hf : Skill.find? s with
  | none =>
    rw [Skill.canonical_of_unknown hf]
    exact h.skills s (Selection.mem_filled.mp hs).1
  | some k =>
    have hword := Skill.isWord_name k
    rw [Skill.canonical_of_find? hf, Token.split_of_no_blank hword.1 fun c hc => (hword.2 c hc).1]
    refine ⟨.of_isPlain (Skill.isPlain_name k) (Skill.read?_name k), fun w hw => ?_⟩
    rw [List.mem_singleton.mp hw]
    exact Skill.ability_find?_name k

theorem IsPhrased.texts (h : c.IsPhrased) : ∀ t ∈ c.texts, Token.IsQuotable t := by
  intro t ht
  rw [mem_texts, h.ability, h.tools, h.vehicle, h.dc, h.activity] at ht
  obtain ht : t ∈ Selection.values c.skills := by simpa [Selection.values] using ht
  exact (h.skills t ht).1.quotable

/-- Without a format and an edition there are keys only where there is no name at all. -/
theorem IsPhrased.skillNames_of_keyed (h : c.IsPhrased) (hb : c.bare? = none)
    (hformat : c.format = none) (hedition : c.edition = none) : c.skillNames = [] := by
  have hdc := h.dc
  have hkeys : c.needsKeys = false := by
    refine needsKeys_eq_false.mpr ⟨?_, ?_, hformat, ?_, ?_, hedition⟩
    · rw [h.tools]; rfl
    · rw [h.vehicle]; rfl
    · rw [h.passive]; decide
    · rw [h.activity]; rfl
  have hability : c.abilityName = none := by rw [abilityName, h.ability]; rfl
  rw [bare?, hkeys, if_neg Bool.false_ne_true, hability] at hb
  rcases hd : c.dc with _ | n | t <;> rw [hd] at hb hdc
  · rcases hnames : c.skillNames with _ | ⟨m, _ | ⟨l, ms⟩⟩ <;> rw [hnames] at hb <;> cases hb
  · rcases hnames : c.skillNames with _ | ⟨m, _ | ⟨l, ms⟩⟩ <;> rw [hnames] at hb <;> cases hb
  · cases hdc

/-- The skills of a check come back with a format or an edition, which need keys, and as their words
without. -/
theorem first?_phrases (hk : IsKind kind) (htool : kind ≠ .tool) (h : c.IsPhrased) :
    ∃ d : Check, Occurrence.first? (Command.write kind (.check c)) =
        some (Occurrence.whole kind (.check d) (Command.write kind (.check c))) ∧
      Selection.values d.skills =
        if c.format.isSome || c.edition.isSome then c.skillNames
        else (c.skillNames.flatMap Token.split).map Skill.canonical := by
  have hnames := h.skillNames
  cases hb : c.bare? with
  | none =>
    -- the names stand behind a key, in quotes where they need them
    obtain ⟨hwhole, hread⟩ := read_keyed kind (fun t ht => (h.texts t ht).1)
      (fun n hn => (hnames n hn).1.slash) (by rw [h.tools]; rintro _ ⟨⟩)
      (Quantity.isStable_of_bind h.dc)
    rw [← parts_of_keyed hb] at hwhole hread
    refine ⟨c.settled, first?_of_read hk (fun t ht => (h.texts t ht).2) hwhole hread, ?_⟩
    show Selection.values (Selection.ofList? c.skillNames) = _
    rw [Selection.values_ofList?]
    split
    · rfl
    next hsettings =>
      simp only [Bool.or_eq_true, not_or, Option.not_isSome_iff_eq_none] at hsettings
      rw [h.skillNames_of_keyed hb hsettings.1 hsettings.2]
      rfl
  | some ps =>
    -- the names stand as they are, and each of their words is added as a name
    obtain ⟨hkeys, hp⟩ := bare?_eq_some hb
    obtain ⟨n, hps, -, -⟩ := positional?_eq_some hp
    obtain ⟨-, -, hformat, -, -, hedition⟩ := needsKeys_eq_false.mp hkeys
    have hability : c.abilityName = none := by rw [abilityName, h.ability]; rfl
    have hparts : c.parts = c.skillNames ++ n.toList.map Numeral.write := by
      rw [parts_of_bare? hb, hps, hability]
      rfl
    obtain ⟨body, hsplit, hfound⟩ := Occurrence.first?_phrases (heading_mem hk)
      (fun m hm => (hnames m hm).1) n
    have hcommand : Command.read kind none body = .check (read kind body) := by
      rcases hk with rfl | rfl | rfl <;> rfl
    have hwords : ∀ w ∈ c.skillNames.flatMap Token.split,
        '=' ∉ w.toList ∧ Ability.find? w = none ∧ Numeral.read? w = none := by
      intro w hw
      obtain ⟨n, hn, hw⟩ := List.mem_flatMap.mp hw
      obtain ⟨hkey, hnumber⟩ := (hnames n hn).1.word hw
      exact ⟨hkey, (hnames n hn).2 w hw, hnumber⟩
    refine ⟨read kind body, ?_, ?_⟩
    · rw [write_eq hk, hparts, ← hcommand]
      exact hfound
    · rw [read, hsplit, List.foldl_append, foldl_words htool hwords, foldl_number n rfl, hformat,
        hedition]
      exact Selection.values_ofList? _

end Check

/-! ### Both kinds of commands -/

namespace Command

/-- The names in the list of a command: abilities of a saving throw, and skills of a check. -/
def listed : Command → List String
  | save s => Selection.values s.abilities
  | check c => Selection.values c.skills
  | _ => []

/-- The canonical form of a name in that list. -/
def canonicalName : Command → String → String
  | save _ => Ability.canonical
  | check _ => Skill.canonical
  | _ => id

/-- The names as they are written: in canonical form, and without empty ones. -/
def writtenNames (c : Command) : List String :=
  (c.listed.filter (· ≠ "")).map c.canonicalName

/-- Whether a list of names stands behind a key, because of a setting that needs one. -/
def isKeyed : Command → Bool
  | save s => s.format.isSome
  | check c => c.format.isSome || c.edition.isSome
  | _ => false

/-- A saving throw or a check of phrases, to be written under a kind. -/
def IsPhrased (k : Kind) : Command → Prop
  | save s => Save.IsKind k ∧ s.IsPhrased
  | check c => (k = .check ∨ k = .skill) ∧ c.IsPhrased
  | _ => False

section Phrased

variable {k : Kind} {c : Command} (h : c.IsPhrased k)

include h

/-- The names that come back are those that were written, or their words where there are no keys. -/
theorem IsPhrased.exists_read :
    ∃ d, Occurrence.first? (c.write k) = some (Occurrence.whole k d (c.write k)) ∧
      d.listed = if c.isKeyed then c.writtenNames
        else (c.writtenNames.flatMap Token.split).map c.canonicalName := by
  cases c with
  | save s =>
    obtain ⟨d, hfound, hlisted⟩ := Save.first?_phrases h.1 h.2
    exact ⟨save d, hfound, hlisted⟩
  | check c =>
    obtain ⟨hk, hphrased⟩ := h
    have hkind : Check.IsKind k := hk.imp_right .inl
    have htool : k ≠ .tool := by rcases hk with rfl | rfl <;> decide
    obtain ⟨d, hfound, hlisted⟩ := Check.first?_phrases hkind htool hphrased
    exact ⟨check d, hfound, hlisted⟩
  | _ => exact h.elim

/-- The names that are written come back from their words if each is one word, and only then. -/
theorem IsPhrased.words_eq_iff :
    (c.writtenNames.flatMap Token.split).map c.canonicalName = c.writtenNames ↔
      ∀ n ∈ c.writtenNames, ∀ x ∈ n.toList, Text.isBlank x = false := by
  have hplain : ∀ {f : String → String}, (∀ w, Token.IsPlain (f w) ∨ f w = w) →
      ∀ w : String, (∀ x ∈ w.toList, Text.isBlank x = false) →
        ∀ x ∈ (f w).toList, Text.isBlank x = false := by
    intro f hf w hw
    rcases hf w with hp | he
    · exact fun x hx => (hp.1.2 x hx).1
    · rwa [he]
  cases c with
  | save s =>
    have hnames := h.2.abilityNames
    exact map_words_eq_iff
      (fun n hn => ⟨Save.abilityNames_ne_empty n hn, (hnames n hn).quotable.1⟩)
      Save.abilityNames_canonical (hplain Ability.canonical_cases)
  | check c =>
    have hnames := h.2.skillNames
    exact map_words_eq_iff
      (fun n hn => ⟨Check.skillNames_ne_empty n hn, (hnames n hn).1.quotable.1⟩)
      Check.skillNames_canonical (hplain Skill.canonical_cases)
  | _ => exact h.elim

end Phrased

end Command

namespace Occurrence

/-- A command of phrases is found as a whole. Its names come back behind a key, and as their words
without one; so they are the names that were written behind a key or if each is one word, and only
then. -/
theorem first?_write_phrases {k : Kind} {c : Command} (h : c.IsPhrased k) :
    ∃ d, first? (c.write k) = some (whole k d (c.write k)) ∧
      (d.listed = if c.isKeyed then c.writtenNames
        else (c.writtenNames.flatMap Token.split).map c.canonicalName) ∧
      (d.listed = c.writtenNames ↔
        c.isKeyed = true ∨ ∀ n ∈ c.writtenNames, ∀ x ∈ n.toList, Text.isBlank x = false) := by
  obtain ⟨d, hfound, hlisted⟩ := h.exists_read
  refine ⟨d, hfound, hlisted, ?_⟩
  rw [hlisted, ← h.words_eq_iff]
  by_cases hkeys : c.isKeyed = true
  · rw [if_pos hkeys]
    exact iff_of_true rfl (.inl hkeys)
  · rw [if_neg hkeys, or_iff_right hkeys]

/-- With rules, a skill of two words stands in quotes behind its key. -/
theorem first?_write_houseLore :
    let c : Command := .check
      { skills := some (.many ["house lore", "PRC"])
        dc := some (.number 15)
        edition := some .year2014 }
    c.IsPhrased .check ∧
      c.write .check = "[[/check skill=\"house lore/perception\" dc=15 rules=2014]]" ∧
      ∃ d, first? (c.write .check) = some (whole .check d (c.write .check)) ∧
        d.listed = ["house lore", "perception"] := by
  intro c
  have h : c.IsPhrased .check := by
    refine ⟨.inl rfl, ⟨rfl, ?_, rfl, rfl, rfl, rfl, rfl⟩⟩
    intro s hs
    rcases List.mem_pair.mp hs with rfl | rfl
    · exact ⟨⟨by decide, by decide, by decide, by decide⟩, by decide⟩
    · exact ⟨⟨by decide, by decide, by decide, by decide⟩, by decide⟩
  obtain ⟨d, hfound, -, hiff⟩ := first?_write_phrases h
  have hlisted := hiff.mpr (.inl rfl)
  have hwritten : c.writtenNames = ["house lore", "perception"] := by decide
  exact ⟨h, by decide +kernel, d, hfound, hlisted.trans hwritten⟩

/-- Without a key, an ability of two words is read as two abilities. -/
theorem not_first?_write_phrases :
    ¬ ∀ (k : Kind) (c : Command), c.IsPhrased k →
      ∃ d, first? (c.write k) = some (whole k d (c.write k)) ∧ d.listed = c.writtenNames := by
  intro claim
  let c : Command := .save { abilities := some (.one "house lore") }
  have h : c.IsPhrased .save := by
    refine ⟨.inl rfl, ⟨?_, rfl, rfl⟩⟩
    intro a ha
    obtain rfl := List.mem_singleton.mp ha
    exact ⟨by decide, by decide, by decide, by decide⟩
  obtain ⟨d, hfound, hlisted⟩ := claim .save c h
  have hread : (first? (c.write .save)).map (fun o => o.command.listed) =
      some ["house", "lore"] := by decide +kernel
  rw [hfound, Option.map_some] at hread
  have hwritten : c.writtenNames = ["house lore"] := by decide
  exact absurd ((hlisted.trans hwritten).symm.trans (Option.some.inj hread)) (by decide)

end Occurrence

end RollMarkup
