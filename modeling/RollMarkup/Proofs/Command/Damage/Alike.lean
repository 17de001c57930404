import Mathlib
import RollMarkup.Proofs.Command.Damage.Body

/-!
# Damage bodies with the same tokens

Whether the separator is seen is all that reading a damage roll has of a body beyond its tokens: without
keys, two bodies with the same tokens are read as the same damage roll if they agree on holding it
(`read_eq_iff`).
-/

namespace RollMarkup

namespace Damage

/-- A separator among the tokens stays when the settings are cut off. -/
theorem ampersand_mem_cut {ts : List String} (h : "&" ∈ ts) : "&" ∈ (Suffix.cut ts).1 :=
  Suffix.mem_cut (by decide) h

/-- Tokens that are left without the settings make a formula or types. -/
theorem formula_or_types_of_cut {ts : List String} (hne : ts ≠ []) (ht : ∀ t ∈ ts, t ≠ "") :
    Text.filled? (Text.spaced (cutFormula ts).1) ≠ none ∨
      Selection.ofList? (cutFormula ts).2 ≠ none := by
  have hcut := cutFormula_fst_append_snd ts
  rcases htypes : (cutFormula ts).2 with _ | ⟨u, us⟩
  · left
    rw [htypes, List.append_nil] at hcut
    obtain ⟨w, ws, rfl⟩ := List.exists_cons_of_ne_nil hne
    rw [hcut, Text.filled?, if_neg (Token.spaced_ne_empty (ht w List.mem_cons_self) ws)]
    exact Option.some_ne_none _
  · right
    cases us <;> exact Option.some_ne_none _

/-- Of two bodies with the same tokens, only one of which holds the separator, one is read as several
rolls and the other as one. -/
theorem read_ne_of_hasSeveral {b c t : String} {ts : List String} (hb : Token.split b = t :: ts)
    (hc : Token.split c = t :: ts) (ht : Entry.ofToken? t = none)
    (hseveral : hasSeveral b.toList = true) (hone : hasSeveral c.toList = false) :
    read b ≠ read c := by
  have hamp : "&" ∈ t :: ts := by
    rcases mem_or_exists_of_hasSeveral hseveral with hmem | ⟨u, hu, hin⟩
    · rw [← hb]
      exact List.mem_map_of_mem hmem
    · have hmem : u ∈ Token.splitChars c.toList := by
        rwa [← Token.splitChars_inj.mpr (hb.trans hc.symm)]
      rw [hasSeveral_of_mem_splitChars hmem hin] at hone
      cases hone
  have hleft : (Suffix.cut (t :: ts)).1 ≠ [] := List.ne_nil_of_mem (ampersand_mem_cut hamp)
  have hne : ∀ u ∈ (Suffix.cut (t :: ts)).1, u ≠ "" := by
    intro u hu
    have hmem : u ∈ Token.split b := by
      rw [hb]
      exact (Suffix.cut_isPrefix _).subset hu
    exact Token.ne_empty_of_mem_split hmem
  rw [read_of_split hb ht, read_of_split hc ht, readPositional, readPositional, hseveral, hone]
  intro he
  rcases formula_or_types_of_cut hleft hne with h | h
  · exact h (congrArg Damage.formula he).symm
  · exact h (congrArg Damage.types he).symm

/-- Without keys, two bodies with the same tokens are read as the same damage roll if they agree on
holding the separator, and only then. -/
theorem read_eq_iff_of_split {b c t : String} {ts : List String} (hb : Token.split b = t :: ts)
    (hc : Token.split c = t :: ts) (ht : Entry.ofToken? t = none) :
    read b = read c ↔ hasSeveral b.toList = hasSeveral c.toList := by
  constructor
  · intro heq
    cases hseveralb : hasSeveral b.toList <;> cases hseveralc : hasSeveral c.toList
    · rfl
    · exact absurd heq.symm (read_ne_of_hasSeveral hc hb ht hseveralc hseveralb)
    · exact absurd heq (read_ne_of_hasSeveral hb hc ht hseveralb hseveralc)
    · rfl
  · intro hsame
    rw [read_of_split hb ht, read_of_split hc ht, readPositional, readPositional, hsame]

/-- What makes no difference between two bodies with the same tokens: the first token has a key, or
the bodies agree on holding the separator. -/
def ReadsAlike (b c : String) : Prop :=
  (∃ t ∈ (Token.split b).head?, '=' ∈ t.toList) ∨ hasSeveral b.toList = hasSeveral c.toList

/-- Two bodies with the same tokens are read as the same damage roll if they are read alike, and only
then. -/
theorem read_eq_iff {b c : String} (h : Token.split b = Token.split c) :
    read b = read c ↔ ReadsAlike b c := by
  rw [ReadsAlike]
  cases hb : Token.split b with
  | nil =>
    obtain ⟨hreadb, hseveralb⟩ := read_of_no_tokens hb
    obtain ⟨hreadc, hseveralc⟩ := read_of_no_tokens (h.symm.trans hb)
    simp [hreadb, hreadc, hseveralb, hseveralc]
  | cons t ts =>
    have hc : Token.split c = t :: ts := h.symm.trans hb
    have hhead : (∃ u ∈ (t :: ts).head?, '=' ∈ u.toList) ↔ '=' ∈ t.toList := by simp
    rw [hhead]
    by_cases hkey : '=' ∈ t.toList
    · -- with keys the body is no more than its tokens
      have hhead : ∀ u ∈ (t :: ts).head?, '=' ∈ u.toList := by simpa using hkey
      rw [read_of_key hb hhead, read_of_key hc hhead]
      exact iff_of_true rfl (.inl hkey)
    · rw [or_iff_right hkey]
      exact read_eq_iff_of_split hb hc (Entry.ofToken?_eq_none hkey)

end Damage

end RollMarkup
