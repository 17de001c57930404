import Mathlib
import RollMarkup.Proofs.Command.Save
import RollMarkup.Proofs.Token.Characters

/-!
# Canonical texts of saving throws

What was read of a body without closing brackets is written without them (`closed_read`). The
canonical text of a saving throw whose names can stand where it writes them (`IsLegible`) is read as a
saving throw with the same canonical text (`isFixed`).
-/

namespace RollMarkup

namespace Save

variable {kind : Kind} {s : Save}

/-! ### What is read -/

/-- A saving throw that is being read holds no closing bracket, and a difficulty that its text gives
back. -/
structure Draft.IsClosed (d : Draft) : Prop where
  abilityList : ∀ n ∈ d.abilityList, ']' ∉ n.toList
  dc : ∀ q ∈ d.dc, q.IsStable ∧ ∀ t ∈ q.formula?, ']' ∉ t.toList
  activity : ∀ a ∈ d.activity, ']' ∉ a.toList

theorem Draft.IsClosed.append {d : Draft} (hd : d.IsClosed) {ns : List String}
    (hn : ∀ n ∈ ns, ']' ∉ n.toList) :
    IsClosed { d with abilityList := d.abilityList ++ ns } :=
  { hd with abilityList := List.forall_mem_append.mpr ⟨hd.abilityList, hn⟩ }

/-- An entry without a closing bracket leaves the save closed. -/
theorem Draft.IsClosed.put {d : Draft} (hd : d.IsClosed) {e : Entry} (he : ']' ∉ e.value.toList) :
    (d.put e).IsClosed := by
  unfold Draft.put
  split
  next v =>
    refine hd.append fun n hn => ?_
    obtain ⟨t, ht, rfl⟩ := List.mem_map.mp hn
    exact Ability.not_mem_canonical (.inr rfl) (Entry.not_mem_valueList he t ht)
  next v => exact { hd with dc := Quantity.lacks_ofText he }
  next v => exact { hd with }
  next v =>
    refine { hd with activity := ?_ }
    rintro a ⟨⟩
    exact he
  next => exact hd

/-- A word without a closing bracket leaves the save closed, whatever it is taken for. -/
theorem Draft.IsClosed.place {d : Draft} (hd : d.IsClosed) {t : String} (ht : ']' ∉ t.toList) :
    (d.place t).IsClosed := by
  unfold Draft.place
  split
  next a _ => exact hd.append (List.forall_mem_singleton.mpr (Ability.isPlain_name a).2.2)
  · split
    next n _ =>
      refine { hd with dc := ?_ }
      rintro q ⟨⟩
      exact ⟨Quantity.isStable_number n, fun t ht => by cases ht⟩
    · exact hd.append (List.forall_mem_singleton.mpr ht)

/-- A token without a closing bracket leaves the save closed. -/
theorem Draft.IsClosed.add {d : Draft} (hd : d.IsClosed) {t : String} (ht : ']' ∉ t.toList) :
    (d.add t).IsClosed := by
  unfold Draft.add
  split
  next e he => exact hd.put (Entry.not_mem_ofToken? ht he)
  · exact hd.place ht

/-- A saving throw that is read from a body without closing brackets holds none. -/
theorem closed_read {body : String} (h : ']' ∉ body.toList) :
    (∀ t ∈ (read body).texts, ']' ∉ t.toList) ∧ ∀ q ∈ (read body).dc, q.IsStable := by
  have hempty : Draft.IsClosed {} := by
    refine ⟨?_, ?_, ?_⟩ <;> rintro _ ⟨⟩
  have hfold : ((Token.split body).foldl Draft.add {}).IsClosed := by
    apply List.foldlRecOn (motive := Draft.IsClosed) _ _ hempty
    intro d hd t ht
    exact hd.add (Token.not_mem_split h t ht)
  refine ⟨fun t ht => ?_, fun q hq => (hfold.dc q hq).1⟩
  rcases mem_texts.mp ht with ht | ht | ht
  · rw [read, Draft.finish, Selection.values_ofList?] at ht
    exact hfold.abilityList t ht
  · obtain ⟨q, hq, ht⟩ := Option.bind_eq_some_iff.mp ht
    exact (hfold.dc q hq).2 t ht
  · exact hfold.activity t ht

/-! ### What is written again -/

/-- What a saving throw is settled as is written as the saving throw is. -/
theorem parts_settled : s.settled.parts = s.parts := by
  have hnames : s.settled.abilityNames = s.abilityNames := by
    show (Selection.filled (Selection.ofList? s.abilityNames)).map Ability.canonical = _
    rw [Selection.filled_ofList? abilityNames_ne_empty, abilityNames_canonical]
  have hactivity : Text.filled s.settled.activity = Text.filled s.activity := Text.filled_filled _
  have hentries : s.settled.entries = s.entries := by
    rw [entries, hnames, hactivity]
    rfl
  have hpositional : s.settled.positional? = s.positional? := by
    rw [positional?, hnames, hactivity]
    rfl
  rw [parts, hpositional, hentries]
  rfl

/-- Whether the names of a saving throw can stand where its canonical text has them: in a list without
a slash behind a key, and without a key as words that are no numbers. -/
def IsLegible (s : Save) : Prop :=
  if s.positional? = none then ∀ n ∈ s.abilityNames, '/' ∉ n.toList
  else ∀ n ∈ s.abilityNames, Token.IsWord n ∧ Numeral.read? n = none

/-- The canonical text of a legible saving throw is fixed. -/
theorem isFixed (hk : IsKind kind) (closed : ∀ t ∈ s.texts, ']' ∉ t.toList)
    (stable : ∀ q ∈ s.dc, q.IsStable) (quotes : ∀ t ∈ s.texts, '"' ∉ t.toList)
    (h : s.IsLegible) : Command.IsFixed kind (.save s) := by
  obtain ⟨hwhole, hread⟩ := read_parts quotes stable h
  refine ⟨.save s.settled, first?_of_read hk closed hwhole hread, ?_⟩
  rw [write_eq hk, write_eq hk, parts_settled]

end Save

end RollMarkup
