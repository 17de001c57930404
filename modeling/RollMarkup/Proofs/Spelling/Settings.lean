import Mathlib
import RollMarkup.Proofs.Spelling.KeyOrder
import RollMarkup.Proofs.Token.Suffix

/-!
# Settings in any order

The settings behind a damage or heal body are cut off in whatever order they stand, and they say what
their entries say in a body with keys (`cut_settings`).
-/

namespace RollMarkup

/-- A setting of a roll, with the text of its value. -/
inductive Setting where
  /-- The word for an average that is shown. -/
  | shown
  | average (text : String)
  | format (text : String)
  | activity (text : String)
  deriving DecidableEq, Repr

namespace Setting

/-- The entry of the setting in a body with keys. -/
def entry : Setting → Entry
  | shown => ⟨"average", "true"⟩
  | average v => ⟨"average", v⟩
  | format v => ⟨"format", v⟩
  | activity v => ⟨"activity", v⟩

/-- The token of the setting behind a body without keys. -/
def token : Setting → String
  | shown => "average"
  | s => s.entry.toToken

theorem token_cases (s : Setting) : s.token = "average" ∨ s.token = s.entry.toToken := by
  cases s with
  | shown => exact .inl rfl
  | average v | format v | activity v => exact .inr rfl

/-- Settings with values that can stand between quotes, no two of them for the same field. -/
structure AreSound (ss : List Setting) : Prop where
  quotable : ∀ s ∈ ss, Token.IsQuotable s.entry.value
  distinct : ((ss.map entry).map Entry.key).Nodup

theorem isPlain_entry {s : Setting} (h : Token.IsQuotable s.entry.value) : s.entry.IsPlain :=
  ⟨by cases s <;> dsimp only [entry] <;> decide, h⟩

theorem AreSound.isPlain {ss : List Setting} (h : AreSound ss) :
    ∀ e ∈ ss.map entry, e.IsPlain := by
  intro e he
  obtain ⟨s, hs, rfl⟩ := List.mem_map.mp he
  exact isPlain_entry (h.quotable s hs)

theorem AreSound.perm {ss us : List Setting} (h : AreSound ss) (perm : ss.Perm us) : AreSound us where
  quotable := fun s hs => h.quotable s (perm.mem_iff.mpr hs)
  distinct := (((perm.map entry).map Entry.key).nodup_iff).mp h.distinct

/-- Settings stand as whole tokens behind others, and none of them ends the command. -/
theorem AreSound.isWhole_append {ss : List Setting} (h : AreSound ss) {ts : List String}
    (hts : ∀ t ∈ ts, Token.IsWhole t ∧ ']' ∉ t.toList) :
    ∀ t ∈ ts ++ ss.map token, Token.IsWhole t ∧ ']' ∉ t.toList := by
  intro t ht
  rcases List.mem_append.mp ht with ht | ht
  · exact hts t ht
  · obtain ⟨s, hs, rfl⟩ := List.mem_map.mp ht
    have hplain := isPlain_entry (h.quotable s hs)
    rcases s.token_cases with htoken | htoken
    · rw [htoken]
      decide
    · rw [htoken]
      exact ⟨Entry.isWhole_toToken hplain.isSound, hplain.closed⟩

end Setting

/-! ### Settings in any order -/

namespace Suffix

/-- The value of an entry goes to the setting that its key names. -/
def put (s : Suffix) : Entry → Suffix
  | ⟨"average", v⟩ => { s with average := some (.ofText v) }
  | ⟨"format", v⟩ => { s with format := Keyword.ofWord? v }
  | ⟨"activity", v⟩ => { s with activity := some v }
  | _ => s

/-- What the settings say together. -/
def ofSettings (ss : List Setting) : Suffix :=
  (ss.map Setting.entry).foldl put {}

theorem setsByKey : Entry.SetsByKey put ["average", "format", "activity"] where
  unknown := by
    intro d k v hk
    unfold put
    split <;> simp_all
  swaps := by
    simp only [List.pairwise_cons, List.forall_mem_cons, List.Pairwise.nil, List.not_mem_nil,
      false_imp_iff, implies_true, and_true]
    and_intros <;> intro d v w <;> rfl

/-- Settings say the same in any order. -/
theorem ofSettings_perm {ss us : List Setting} (h : Setting.AreSound ss) (perm : ss.Perm us) :
    ofSettings ss = ofSettings us :=
  setsByKey.foldl_perm (perm.map Setting.entry) h.distinct {}

/-- Settings with keys go to the fields of a roll that the same settings go to behind its row. -/
theorem foldl_settings {σ : Type} {putInto : σ → Entry → σ} {roll : Suffix → σ}
    (h : ∀ x s, putInto (roll x) (Setting.entry s) = roll (x.put s.entry)) (ss : List Setting) :
    (ss.map Setting.entry).foldl putInto (roll {}) = roll (ofSettings ss) := by
  rw [ofSettings, List.foldl_map, List.foldl_map]
  exact List.foldl_hom roll h

theorem take?_token {s : Setting} (h : Token.IsQuotable s.entry.value) (x : Suffix) :
    x.take? s.token = some (x.put s.entry) := by
  have hread := Entry.ofToken?_toToken (Setting.isPlain_entry h).isSound
  cases s with
  | shown => rfl
  | average v | format v | activity v =>
    show take? x (Entry.toToken _) = _
    rw [take?, if_neg (toToken_ne_average _), hread]
    rfl

/-- Settings are taken one after another, each into the field of its key. -/
theorem takeAll_settings {ss : List Setting} (h : ∀ s ∈ ss, Token.IsQuotable s.entry.value)
    (x : Suffix) (ts : List String) :
    takeAll x (ss.map Setting.token ++ ts) = takeAll ((ss.map Setting.entry).foldl put x) ts := by
  induction ss generalizing x with
  | nil => rfl
  | cons s ss ih =>
    rw [List.map_cons, List.cons_append, takeAll_cons (take?_token (h s List.mem_cons_self) x),
      ih fun t ht => h t (List.mem_cons_of_mem _ ht), List.map_cons, List.foldl_cons]

/-- The settings behind other tokens are cut off, in whatever order they stand. -/
theorem cut_settings {ss : List Setting} (h : Setting.AreSound ss) {ts : List String}
    (last : ∀ t ∈ ts.getLast?, isSetting t = false) :
    cut (ts ++ ss.map Setting.token) = (ts, ofSettings ss) := by
  have head : ∀ t ∈ ts.reverse.head?, isSetting t = false := by
    rw [List.head?_reverse]
    exact last
  -- they are taken from the end, which is one of the orders that say the same
  have hrev := h.perm ss.reverse_perm.symm
  rw [cut, List.reverse_append, ← List.map_reverse, takeAll_settings hrev.quotable,
    takeAll_of_head head, ofSettings_perm h ss.reverse_perm.symm, List.reverse_reverse]
  rfl

end Suffix

end RollMarkup
