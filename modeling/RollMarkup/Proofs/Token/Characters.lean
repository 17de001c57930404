import Mathlib
import RollMarkup.Proofs.Token.Suffix

/-!
# Characters of what is read

Reading makes up no characters: what a body does not hold is in none of its tokens, and in none of the
keys, values and settings that are read from them.
-/

namespace RollMarkup

variable {x : Char}

namespace Text

/-- What stands before and what stands after the first `stop` is there in the text. -/
theorem mem_of_cutFirst? {stop : Char} {cs : List Char} {p : List Char × List Char}
    (h : cutFirst? stop cs = some p) : (∀ c ∈ p.1, c ∈ cs) ∧ ∀ c ∈ p.2, c ∈ cs := by
  induction cs generalizing p with
  | nil => cases h
  | cons d ds ih =>
    rw [cutFirst?] at h
    split at h
    · obtain rfl := Option.some.inj h
      exact ⟨by simp, fun c hc => List.mem_cons_of_mem _ hc⟩
    · obtain ⟨q, hq, rfl⟩ := Option.map_eq_some_iff.mp h
      obtain ⟨h1, h2⟩ := ih hq
      refine ⟨fun c hc => ?_, fun c hc => List.mem_cons_of_mem _ (h2 c hc)⟩
      rcases List.mem_cons.mp hc with rfl | hc
      · exact List.mem_cons_self
      · exact List.mem_cons_of_mem _ (h1 c hc)

/-- What stands before the first `stop` does not hold it. -/
theorem not_mem_of_cutFirst? {stop : Char} {cs : List Char} {p : List Char × List Char}
    (h : cutFirst? stop cs = some p) : stop ∉ p.1 := by
  induction cs generalizing p with
  | nil => cases h
  | cons d ds ih =>
    rw [cutFirst?] at h
    split at h
    · obtain rfl := Option.some.inj h
      exact List.not_mem_nil
    next hne =>
      obtain ⟨q, hq, rfl⟩ := Option.map_eq_some_iff.mp h
      rw [List.mem_cons, not_or]
      exact ⟨Ne.symm hne, ih hq⟩

/-- A character that a text lacks is on neither side of a cut in it. -/
theorem not_mem_of_cut? {stop : Char} {s : String} {p : String × String} (h : x ∉ s.toList)
    (hp : cut? stop s = some p) : x ∉ p.1.toList ∧ x ∉ p.2.toList := by
  obtain ⟨q, hq, rfl⟩ := Option.map_eq_some_iff.mp hp
  obtain ⟨h1, h2⟩ := mem_of_cutFirst? hq
  rw [String.toList_ofList, String.toList_ofList]
  exact ⟨fun hx => h (h1 x hx), fun hx => h (h2 x hx)⟩

end Text

namespace Token

/-- The scan adds no character: what is in its tokens was in the text. -/
theorem mem_scan (q : Bool) (cs : List Char) :
    (∀ c ∈ (scan q cs).1, c ∈ cs) ∧ ∀ t ∈ (scan q cs).2, ∀ c ∈ t, c ∈ cs := by
  have cons : ∀ {d : Char} {cs first : List Char} {rest : List (List Char)},
      (∀ c ∈ first, c ∈ cs) ∧ (∀ t ∈ rest, ∀ c ∈ t, c ∈ cs) →
        (∀ c ∈ d :: first, c ∈ d :: cs) ∧ ∀ t ∈ rest, ∀ c ∈ t, c ∈ d :: cs := by
    rintro d cs first rest ⟨h1, h2⟩
    exact ⟨List.cons_subset_cons d h1, fun t ht c hc => List.mem_cons_of_mem _ (h2 t ht c hc)⟩
  induction q, cs using scan_induction with
  | nil q => simp [scan]
  | quote q cs ih =>
    rw [scan_quote]
    exact cons ih
  | gap b cs hb ih =>
    rw [scan_gap cs hb]
    refine ⟨by simp, fun t ht c hc => List.mem_cons_of_mem _ ?_⟩
    rcases mem_splitChars_iff.mp ht with ⟨-, rfl⟩ | ht
    · exact ih.1 c hc
    · exact ih.2 t ht c hc
  | kept q d cs hd hkept ih =>
    rw [scan_kept cs hd hkept]
    exact cons ih

/-- No token holds a character that the body lacks. -/
theorem not_mem_split {body : String} (h : x ∉ body.toList) : ∀ t ∈ split body, x ∉ t.toList := by
  intro t ht hx
  obtain ⟨cs, hcs, rfl⟩ := List.mem_map.mp ht
  rw [String.toList_ofList] at hx
  obtain ⟨h1, h2⟩ := mem_scan false body.toList
  rcases mem_splitChars_iff.mp hcs with ⟨-, rfl⟩ | hcs
  · exact h (h1 x hx)
  · exact h (h2 cs hcs x hx)

/-- A blank is in a token only where the token has quotes. -/
theorem isBlank_of_mem_scan (q : Bool) (cs : List Char) :
    (q = false → '"' ∉ (scan q cs).1 → ∀ c ∈ (scan q cs).1, Text.isBlank c = false) ∧
      ∀ t ∈ (scan q cs).2, t ≠ [] ∧ ('"' ∉ t → ∀ c ∈ t, Text.isBlank c = false) := by
  induction q, cs using scan_induction with
  | nil q => simp [scan]
  | quote q cs ih =>
    rw [scan_quote]
    exact ⟨fun _ hq => absurd List.mem_cons_self hq, ih.2⟩
  | gap b cs hb ih =>
    rw [scan_gap cs hb]
    refine ⟨by simp, fun t ht => ?_⟩
    rcases mem_splitChars_iff.mp ht with ⟨hne, rfl⟩ | ht
    · exact ⟨hne, ih.1 rfl⟩
    · exact ih.2 t ht
  | kept q d cs hd hkept ih =>
    rw [scan_kept cs hd hkept]
    refine ⟨fun hq hquote c hc => ?_, ih.2⟩
    rw [List.mem_cons, not_or] at hquote
    rcases List.mem_cons.mp hc with rfl | hc
    · simpa [hq] using hkept
    · exact ih.1 hq hquote.2 c hc

/-- A token without quotes is not empty and holds no blank. -/
theorem ne_nil_and_no_blank_of_mem {cs t : List Char} (ht : t ∈ splitChars cs) (hq : '"' ∉ t) :
    t ≠ [] ∧ ∀ c ∈ t, Text.isBlank c = false := by
  obtain ⟨h1, h2⟩ := isBlank_of_mem_scan false cs
  rcases mem_splitChars_iff.mp ht with ⟨hne, rfl⟩ | ht
  · exact ⟨hne, h1 rfl hq⟩
  · exact ⟨(h2 t ht).1, (h2 t ht).2 hq⟩

/-- A token without a quote holds no blank. -/
theorem isBlank_of_mem_split {body t : String} (ht : t ∈ split body) (hq : '"' ∉ t.toList) :
    ∀ c ∈ t.toList, Text.isBlank c = false := by
  obtain ⟨cs, hcs, rfl⟩ := List.mem_map.mp ht
  rw [String.toList_ofList] at hq ⊢
  exact (ne_nil_and_no_blank_of_mem hcs hq).2

/-- A token without quotes is whole. -/
theorem isWhole_of_mem_split {body t : String} (ht : t ∈ split body) (hq : '"' ∉ t.toList) :
    IsWhole t := by
  have hblank := isBlank_of_mem_split ht hq
  obtain ⟨cs, hcs, rfl⟩ := List.mem_map.mp ht
  rw [String.toList_ofList] at hq hblank
  refine ⟨?_, ?_⟩
  · simpa using (ne_nil_and_no_blank_of_mem hcs hq).1
  · rw [String.toList_ofList]
    exact closes_of_no_quote fun c hc => ⟨hblank c hc, fun h => hq (h ▸ hc)⟩

theorem ne_empty_of_mem_split {body t : String} (ht : t ∈ split body) : t ≠ "" := by
  rintro rfl
  exact absurd (isWhole_of_mem_split ht (by decide)).1 (by simp)

/-- Taking the quotes off a token adds no character. -/
theorem not_mem_toValue {t : String} (h : x ∉ t.toList) : x ∉ (toValue t).toList := by
  rw [toValue, String.toList_ofList]
  unfold unquoteChars
  split
  next cs heq =>
    rw [heq, List.mem_cons, not_or] at h
    split
    · exact fun hx => h.2 (List.dropLast_subset cs hx)
    · exact fun hx => (List.mem_cons.mp hx).elim h.1 h.2
  · exact h

end Token

theorem mem_of_mem_splitOn {α : Type} [BEq α] [LawfulBEq α] {a y : α} {l g : List α}
    (hg : g ∈ l.splitOn a) (hy : y ∈ g) : y ∈ l := by
  have hl : [a].intercalate (l.splitOn a) = l := List.intercalate_splitOn a
  rw [← hl]
  exact Token.mem_intercalate_of_mem hg hy

namespace Entry

/-- An entry's value holds no character that its token lacks. -/
theorem not_mem_ofToken? {t : String} (h : x ∉ t.toList) {e : Entry} (he : ofToken? t = some e) :
    x ∉ e.value.toList := by
  obtain ⟨p, hp, rfl⟩ := Option.map_eq_some_iff.mp he
  exact Token.not_mem_toValue (Text.not_mem_of_cut? h hp).2

theorem not_mem_valueList {v : String} (h : x ∉ v.toList) : ∀ s ∈ valueList v, x ∉ s.toList := by
  intro s hs hx
  obtain ⟨cs, hcs, rfl⟩ := List.mem_map.mp hs
  rw [String.toList_ofList] at hx
  exact h (mem_of_mem_splitOn (List.mem_filter.mp hcs).1 hx)

end Entry

namespace Suffix

/-- Settings that were read from tokens without a character do not hold it. -/
structure Lacks (x : Char) (s : Suffix) : Prop where
  stable : ∀ a ∈ s.average, a.IsStable
  average : ∀ t ∈ s.average.bind Average.formula?, x ∉ t.toList
  activity : ∀ v ∈ s.activity, x ∉ v.toList

/-- A character that neither the settings nor a token hold is in no setting after the token is
taken. -/
theorem Lacks.take? {s s' : Suffix} (hs : s.Lacks x) {t : String} (ht : x ∉ t.toList)
    (h : s.take? t = some s') : s'.Lacks x := by
  unfold Suffix.take? at h
  split at h
  · obtain rfl := Option.some.inj h
    refine ⟨?_, ?_, hs.activity⟩
    · rintro a ⟨⟩
      exact Average.isStable_shown true
    · rintro s ⟨⟩
  · split at h
    next v he =>
      obtain rfl := Option.some.inj h
      have hv : x ∉ v.toList := Entry.not_mem_ofToken? ht he
      refine ⟨?_, ?_, hs.activity⟩
      · rintro a ⟨⟩
        exact Average.isStable_ofText v
      · intro s hs
        rw [Average.eq_of_formula?_ofText hs]
        exact hv
    next v he =>
      obtain rfl := Option.some.inj h
      exact ⟨hs.stable, hs.average, hs.activity⟩
    next v he =>
      obtain rfl := Option.some.inj h
      refine ⟨hs.stable, hs.average, ?_⟩
      rintro w ⟨⟩
      exact Entry.not_mem_ofToken? ht he
    · cases h

/-- A character that neither the settings nor the tokens hold is in no setting taken off them. -/
theorem Lacks.takeAll {s : Suffix} (hs : s.Lacks x) {ts : List String}
    (ht : ∀ t ∈ ts, x ∉ t.toList) : (Suffix.takeAll s ts).2.Lacks x := by
  induction ts generalizing s with
  | nil => exact hs
  | cons t ts ih =>
    rw [Suffix.takeAll]
    split
    next s' h =>
      exact ih (hs.take? (ht t List.mem_cons_self) h) fun u hu => ht u (List.mem_cons_of_mem _ hu)
    · exact hs

theorem lacks_empty : Lacks x {} := by
  refine ⟨?_, ?_, ?_⟩ <;> rintro _ ⟨⟩

/-- The settings at the end of tokens without a character do not hold it, and the other tokens stay. -/
theorem lacks_cut {ts : List String} (ht : ∀ t ∈ ts, x ∉ t.toList) :
    (∀ t ∈ (cut ts).1, t ∈ ts) ∧ (cut ts).2.Lacks x := by
  have hreverse : ∀ t ∈ ts.reverse, x ∉ t.toList := fun t h => ht t (List.mem_reverse.mp h)
  exact ⟨fun t h => (cut_isPrefix ts).subset h, lacks_empty.takeAll hreverse⟩

end Suffix

end RollMarkup
