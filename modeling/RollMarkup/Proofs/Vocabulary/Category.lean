import Mathlib
import RollMarkup.Proofs.Json.Keyed
import RollMarkup.Proofs.Vocabulary.Naming
import RollMarkup.Vocabulary.Category

/-!
# Entries of the rule categories

A category has its entries under spellings, and no two categories share one but for `con`
(`spellings_disjoint`). So a rule name is found in the category that resolves it, whichever that is
(`search?_eq_some_iff`), an entry is found again in the category that has it (`search?_entry`), and a
name made canonical stays as it is (`known_names_stable`).
-/

namespace RollMarkup

namespace Category

variable {c d : Category} {s t k e f : String} {x : Char}

/-! ### Slugs -/

/-- A slug is made of small letters and hyphens. -/
def IsSlug (s : String) : Prop :=
  s ≠ "" ∧ ∀ c ∈ s.toList, c = '-' ∨ c.isLower = true

instance (s : String) : Decidable (IsSlug s) :=
  decidable_of_iff (s ≠ "" ∧ s.toList.all fun c => c == '-' || c.isLower) (by simp [IsSlug])

/-- A slug is a plain word. -/
theorem isPlain_of_isSlug (h : IsSlug s) : Token.IsPlain s := by
  have hne : ∀ c : Char, c ≠ '-' → c.isLower = false → c ∉ s.toList := by
    intro c hc hlower hmem
    rcases h.2 c hmem with rfl | hl
    · exact hc rfl
    · rw [hlower] at hl
      cases hl
  refine ⟨⟨h.1, fun c hc => ⟨?_, ?_, ?_⟩⟩, hne '/' (by decide) (by decide),
    hne ']' (by decide) (by decide)⟩
  · rcases h.2 c hc with rfl | hl
    · decide
    · exact Text.isBlank_of_isAlphanum (by simp [Char.isAlphanum, Char.isAlpha, hl])
  · rintro rfl
    exact hne '=' (by decide) (by decide) hc
  · rintro rfl
    exact hne '"' (by decide) (by decide) hc

/-- A slug is compared as it stands. -/
theorem comparable_of_isSlug (h : IsSlug s) : comparable s = s := by
  have hword := (isPlain_of_isSlug h).1
  have htrim : Text.trim s.toList = s.toList :=
    Text.trim_eq_self ⟨fun c hc => (hword.2 c (List.mem_of_head? hc)).1,
      fun c hc => (hword.2 c (List.mem_of_getLast? hc)).1⟩
  have hchar : ∀ c ∈ s.toList, (if c = ' ' then '-' else Text.lowerChar c) = c := by
    intro c hc
    rcases h.2 c hc with rfl | hl
    · decide
    · rw [if_neg (by rintro rfl; cases hl), Text.lowerChar, if_neg (by rintro rfl; cases hl)]
      simp only [Char.isLower, Bool.and_eq_true, decide_eq_true_eq] at hl
      refine dif_neg fun hu => ?_
      have low : 97 ≤ c.val.toNat := UInt32.le_iff_toNat_le.mp hl.1
      have high : c.val.toNat ≤ 90 := UInt32.le_iff_toNat_le.mp hu.2
      omega
  rw [comparable, htrim, List.map_congr_left hchar, List.map_id', String.ofList_toList]

/-! ### Spellings -/

/-- The spellings under which a category has its entries, each with the entry. -/
def spellings (c : Category) : List (String × String) :=
  c.shortNames ++ c.names.map fun n => (n, n)

/-- The entries of a category: its names, and what its short names stand for. -/
def entries (c : Category) : List String :=
  c.shortNames.map Prod.snd ++ c.names

theorem mem_searchOrder (h : c ≠ .rule) : c ∈ searchOrder := by
  revert h
  cases c <;> decide

theorem mem_searchOrder_of_entry (he : e ∈ c.entries) : c ∈ searchOrder := by
  apply mem_searchOrder
  rintro rfl
  cases he

theorem mem_searchOrder_of_spelling (h : (k, e) ∈ c.spellings) : c ∈ searchOrder := by
  apply mem_searchOrder
  rintro rfl
  cases h

/-- Every spelling is a slug. -/
theorem isSlug_of_spelling (h : (k, e) ∈ c.spellings) : IsSlug k := by
  have all : ∀ g ∈ searchOrder, ∀ p ∈ g.spellings, IsSlug p.1 := by decide +kernel
  exact all c (mem_searchOrder_of_spelling h) _ h

/-- A category has one entry under each spelling. -/
theorem nodup_spellings (c : Category) : (c.spellings.map Prod.fst).Nodup := by
  have all : ∀ g ∈ searchOrder, (g.spellings.map Prod.fst).Nodup := by decide +kernel
  by_cases h : c = .rule
  · rw [h]
    exact List.nodup_nil
  · exact all c (mem_searchOrder h)

/-- Two categories share no spelling but one, which is short for an ability and for a school. -/
def AreApart (c d : Category) : Prop :=
  ∀ p ∈ c.spellings, ∀ q ∈ d.spellings, p.1 = q.1 →
    p.1 = "con" ∧ (c = .ability ∧ d = .spellSchool ∨ c = .spellSchool ∧ d = .ability)

instance (c d : Category) : Decidable (AreApart c d) :=
  inferInstanceAs (Decidable (∀ p ∈ c.spellings, ∀ q ∈ d.spellings, p.1 = q.1 →
    p.1 = "con" ∧ (c = .ability ∧ d = .spellSchool ∨ c = .spellSchool ∧ d = .ability)))

instance : Std.Symm AreApart where
  symm c d h q hq p hp hpq := by
    obtain ⟨hk, hcd⟩ := h p hp q hq hpq.symm
    exact ⟨hpq.trans hk, hcd.symm.imp And.symm And.symm⟩

/-- A spelling that two categories share is `con`, short for an ability and for a school. -/
theorem spellings_disjoint (hcd : c ≠ d) (hc : (k, e) ∈ c.spellings) (hd : (k, f) ∈ d.spellings) :
    k = "con" ∧ (c = .ability ∧ d = .spellSchool ∨ c = .spellSchool ∧ d = .ability) := by
  have all : searchOrder.Pairwise AreApart := by decide +kernel
  have hapart : AreApart c d :=
    all.forall (mem_searchOrder_of_spelling hc) (mem_searchOrder_of_spelling hd) hcd
  exact hapart _ hc _ hd rfl

/-- What a short name stands for is a name too. -/
theorem mem_names (he : e ∈ c.entries) : e ∈ c.names := by
  have all : ∀ g ∈ searchOrder, ∀ p ∈ g.shortNames, p.2 ∈ g.names := by decide +kernel
  rcases List.mem_append.mp he with h | h
  · obtain ⟨p, hp, rfl⟩ := List.mem_map.mp h
    exact all c (mem_searchOrder_of_entry he) p hp
  · exact h

theorem spelling_of_entry (he : e ∈ c.entries) : (e, e) ∈ c.spellings :=
  List.mem_append_right _ (List.mem_map.mpr ⟨e, mem_names he, rfl⟩)

theorem entry_of_spelling (h : (k, e) ∈ c.spellings) : e ∈ c.entries := by
  rcases List.mem_append.mp h with h | h
  · exact List.mem_append_left _ (List.mem_map_of_mem h)
  · obtain ⟨n, hn, heq⟩ := List.mem_map.mp h
    obtain ⟨-, rfl⟩ := Prod.mk.inj heq
    exact List.mem_append_right _ hn

theorem isPlain_entry (he : e ∈ c.entries) : Token.IsPlain e :=
  isPlain_of_isSlug (isSlug_of_spelling (spelling_of_entry he))

/-! ### Resolution -/

theorem lookup_map_self (l : List String) (k : String) :
    (l.map fun n => (n, n)).lookup k = l.find? (· == k) := by
  induction l with
  | nil => rfl
  | cons n l ih =>
    rw [List.map_cons, List.lookup_cons, List.find?_cons, Bool.beq_comm, ih]

/-- The entry that a text names stands under the spelling that the text is compared as. -/
theorem resolve?_eq_some_iff : c.resolve? s = some e ↔ (comparable s, e) ∈ c.spellings := by
  rw [resolve?, ← lookup_map_self, ← List.lookup_append]
  exact Keyed.lookup_eq_some_iff (nodup_spellings c)

/-- A name is only made canonical by an entry. -/
theorem mem_entries_of_resolve? (h : c.resolve? s = some e) : e ∈ c.entries :=
  entry_of_spelling (resolve?_eq_some_iff.mp h)

/-- An entry is resolved as itself. -/
theorem resolve?_entry (he : e ∈ c.entries) : c.resolve? e = some e := by
  have hspelling := spelling_of_entry he
  rwa [resolve?_eq_some_iff, comparable_of_isSlug (isSlug_of_spelling hspelling)]

theorem isNaming (c : Category) : IsNaming c.resolve? where
  isPlain _ _ he := isPlain_entry (mem_entries_of_resolve? he)
  again _ _ he := resolve?_entry (mem_entries_of_resolve? he)

theorem canonical_canonical (c : Category) (s : String) :
    c.canonical (c.canonical s) = c.canonical s :=
  c.isNaming.getD_getD s

theorem not_mem_canonical (hx : x = '"' ∨ x = ']') (h : x ∉ s.toList) :
    x ∉ (c.canonical s).toList :=
  c.isNaming.not_mem_getD hx h

theorem canonical_ne_empty (h : s ≠ "") : c.canonical s ≠ "" :=
  c.isNaming.getD_ne_empty h

/-! ### Search -/

/-- What a search finds in a category, the category resolves. -/
theorem resolve?_of_search? (h : search? s = some (c, e)) : c.resolve? s = some e := by
  obtain ⟨g, -, h⟩ := List.exists_of_findSome?_eq_some h
  obtain ⟨f, hf, h⟩ := Option.map_eq_some_iff.mp h
  obtain ⟨rfl, rfl⟩ := Prod.mk.inj h
  exact hf

/-- What some category resolves, a search finds. -/
theorem exists_search? (h : c.resolve? s = some e) : ∃ d f, search? s = some (d, f) := by
  have hsome : (search? s).isSome = true :=
    List.findSome?_isSome_iff.mpr
      ⟨c, mem_searchOrder_of_spelling (resolve?_eq_some_iff.mp h), by rw [h]; rfl⟩
  obtain ⟨⟨d, f⟩, hs⟩ := Option.isSome_iff_exists.mp hsome
  exact ⟨d, f, hs⟩

/-- The search sees of a text only what it is compared as. -/
theorem search?_congr (h : comparable s = comparable t) : search? s = search? t := by
  unfold search? resolve?
  rw [h]

/-- What is compared as `con` is found as the ability. -/
theorem search?_con (h : comparable s = "con") : search? s = some (.ability, "constitution") := by
  have hcon : search? "con" = some (.ability, "constitution") := by decide +kernel
  have hslug : IsSlug "con" := by decide +kernel
  rw [← hcon]
  exact search?_congr (h.trans (comparable_of_isSlug hslug).symm)

/-- A name is found in the category that resolves it; where two do, it is short for an ability. -/
theorem search?_eq_some_iff :
    search? s = some (c, e) ↔ c.resolve? s = some e ∧ (comparable s = "con" → c = .ability) := by
  constructor
  · intro h
    refine ⟨resolve?_of_search? h, fun hcon => ?_⟩
    rw [search?_con hcon] at h
    exact (Prod.mk.inj (Option.some.inj h)).1.symm
  · rintro ⟨h, hcon⟩
    obtain ⟨d, f, hs⟩ := exists_search? h
    have hd := resolve?_of_search? hs
    by_cases hcd : c = d
    · subst hcd
      rw [hs, ← h.symm.trans hd |> Option.some.inj]
    · -- two categories resolve the name, so that it is the one the search gives to abilities
      obtain ⟨hk, -⟩ := spellings_disjoint hcd (resolve?_eq_some_iff.mp h)
        (resolve?_eq_some_iff.mp hd)
      rw [search?_con hk] at hs
      exact absurd ((hcon hk).trans (Prod.mk.inj (Option.some.inj hs)).1) hcd

/-- An entry is found in the category that has it, as it is. -/
theorem search?_entry (he : e ∈ c.entries) : search? e = some (c, e) := by
  have hcon : ∀ g ∈ searchOrder, "con" ∉ g.names := by decide +kernel
  refine search?_eq_some_iff.mpr ⟨resolve?_entry he, fun h => ?_⟩
  rw [comparable_of_isSlug (isSlug_of_spelling (spelling_of_entry he))] at h
  exact absurd (h ▸ mem_names he) (hcon c (mem_searchOrder_of_entry he))

theorem isPlain_key (c : Category) : Token.IsPlain c.key := by
  cases c <;> decide

theorem ofWord?_key (c : Category) : Keyword.ofWord? c.key = some c := by
  cases c <;> rfl

/-! ### Stability -/

/-- A name made canonical stays as it is, as an ability, as a skill and in every category. What a search
finds, the category and the search find again. Two categories resolve a text exactly if it is compared as
`con`, and then they are the abilities and the schools, of which the search gives the former. -/
theorem known_names_stable (s : String) :
    Ability.canonical (Ability.canonical s) = Ability.canonical s ∧
      Skill.canonical (Skill.canonical s) = Skill.canonical s ∧
      (∀ c : Category, c.canonical (c.canonical s) = c.canonical s) ∧
      (∀ c e, search? s = some (c, e) → c.resolve? e = some e ∧ search? e = some (c, e)) ∧
      (∀ c d : Category, c ≠ d →
        ((c.resolve? s).isSome = true ∧ (d.resolve? s).isSome = true ↔
          comparable s = "con" ∧
            (c = .ability ∧ d = .spellSchool ∨ c = .spellSchool ∧ d = .ability))) ∧
      ∀ c e, search? s = some (c, e) ↔
        c.resolve? s = some e ∧ (comparable s = "con" → c = .ability) := by
  refine ⟨Ability.canonical_canonical s, Skill.canonical_canonical s, fun c => canonical_canonical c s,
    fun c e h => ?_, fun c d hcd => ⟨?_, ?_⟩, fun c e => search?_eq_some_iff⟩
  · have he := mem_entries_of_resolve? (resolve?_of_search? h)
    exact ⟨resolve?_entry he, search?_entry he⟩
  · rintro ⟨hc, hd⟩
    obtain ⟨e, he⟩ := Option.isSome_iff_exists.mp hc
    obtain ⟨f, hf⟩ := Option.isSome_iff_exists.mp hd
    exact spellings_disjoint hcd (resolve?_eq_some_iff.mp he) (resolve?_eq_some_iff.mp hf)
  · rintro ⟨hcon, hcases⟩
    have hability : ability.resolve? s = some "constitution" :=
      resolve?_eq_some_iff.mpr (by rw [hcon]; decide)
    have hschool : spellSchool.resolve? s = some "conjuration" :=
      resolve?_eq_some_iff.mpr (by rw [hcon]; decide)
    rcases hcases with ⟨rfl, rfl⟩ | ⟨rfl, rfl⟩
    · simp [hability, hschool]
    · simp [hability, hschool]

/-- A spelling that two categories share, in capitals and with blanks around it. -/
theorem known_names_stable_con :
    search? " CON\t" = some (.ability, "constitution") ∧
      (ability.resolve? " CON\t").isSome = true ∧ (spellSchool.resolve? " CON\t").isSome = true ∧
      search? "constitution" = some (.ability, "constitution") := by
  have hcon : comparable " CON\t" = "con" := by decide
  obtain ⟨-, -, -, hagain, htwo, hsearch⟩ := known_names_stable " CON\t"
  have hfound : search? " CON\t" = some (.ability, "constitution") :=
    (hsearch _ _).mpr ⟨by decide, fun _ => rfl⟩
  obtain ⟨hability, hschool⟩ := (htwo .ability .spellSchool (by decide)).mpr ⟨hcon, .inl ⟨rfl, rfl⟩⟩
  exact ⟨hfound, hability, hschool, (hagain _ _ hfound).2⟩

end Category

end RollMarkup
