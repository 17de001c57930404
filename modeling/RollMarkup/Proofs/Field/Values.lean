import Mathlib
import RollMarkup.Field.Quantity
import RollMarkup.Field.Selection
import RollMarkup.Proofs.Numeral.Integer
import RollMarkup.Text.Cut

/-!
# Values of fields

An empty string stands for an absent value, and a selection is told by its values. A quantity or an
average is read back from its text where no formula looks like a number or a flag
(`Quantity.IsStable`, `Average.IsStable`), as it is with all that were read.
-/

namespace RollMarkup

namespace Text

theorem filled_eq_some {o : Option String} {s : String} :
    filled o = some s ↔ o = some s ∧ s ≠ "" := by
  cases o with
  | none => simp [filled]
  | some t =>
    by_cases ht : t = ""
    · simp [filled, filled?, ht]
    · have hs : t = s → s ≠ "" := by
        rintro rfl
        exact ht
      simpa [filled, filled?, ht] using hs

/-- What holds of the empty text and of a value that counts holds of any value. -/
theorem forall_mem_of_filled {P : String → Prop} {o : Option String} (empty : P "")
    (h : ∀ s ∈ filled o, P s) : ∀ s ∈ o, P s := by
  intro s hs
  by_cases he : s = ""
  · exact he ▸ empty
  · exact h s (filled_eq_some.mpr ⟨hs, he⟩)

theorem filled_filled (o : Option String) : filled (filled o) = filled o := by
  cases h : filled o with
  | none => rfl
  | some s => rw [filled_eq_some.mpr ⟨rfl, (filled_eq_some.mp h).2⟩]

theorem filled?_getD (o : Option String) : filled? (o.getD "") = filled o := by
  cases o <;> rfl

/-- An absent value is written as an empty one is. -/
theorem filter_filled (o : Option String) (ts : List String) :
    ((filled o).toList ++ ts).filter (· ≠ "") = (o.getD "" :: ts).filter (· ≠ "") := by
  cases o with
  | none => simp [filled]
  | some s => by_cases hs : s = "" <;> simp [filled, filled?, hs]

end Text

namespace Selection

theorem mem_filled {s : Option Selection} {v : String} :
    v ∈ filled s ↔ v ∈ values s ∧ v ≠ "" := by
  simp [filled]

/-- What holds of the empty text and of the values that count holds of all values. -/
theorem forall_mem_values {P : String → Prop} {s : Option Selection} (empty : P "")
    (h : ∀ v ∈ filled s, P v) : ∀ v ∈ values s, P v := by
  intro v hv
  by_cases he : v = ""
  · exact he ▸ empty
  · exact h v (mem_filled.mpr ⟨hv, he⟩)

/-- The values of the plainest selection of some values are these values. -/
theorem values_ofList? (vs : List String) : values (ofList? vs) = vs := by
  cases vs with
  | nil => rfl
  | cons v vs => cases vs <;> rfl

theorem filled_ofList? {vs : List String} (h : ∀ v ∈ vs, v ≠ "") : filled (ofList? vs) = vs := by
  rw [filled, values_ofList?, List.filter_eq_self]
  intro v hv
  exact decide_eq_true (h v hv)

end Selection

namespace Quantity

theorem ofText_of_read? {s : String} {n : Int64} (h : Numeral.read? s = some n) :
    ofText s = number n := by
  rw [ofText, h]

theorem ofText_write (n : Int64) : ofText (Numeral.write n) = number n :=
  ofText_of_read? (Numeral.read?_write n)

/-- A quantity that its text gives back: a formula does not look like a number. -/
def IsStable (q : Quantity) : Prop :=
  ofText q.toText = q

/-- The text of a quantity that is no number. -/
def formula? : Quantity → Option String
  | number _ => none
  | formula s => some s

theorem eq_of_formula?_ofText {v s : String} (h : (ofText v).formula? = some s) : s = v := by
  unfold ofText at h
  split at h
  · cases h
  · exact (Option.some.inj h).symm

/-- Only a quantity that is a text has one that is no number. -/
theorem eq_of_mem_formula? {o : Option Quantity} {s : String} (h : s ∈ o.bind formula?) :
    o = some (formula s) := by
  obtain ⟨q, rfl, hs⟩ := Option.bind_eq_some_iff.mp h
  cases q with
  | number n => cases hs
  | formula t => rw [Option.some.inj hs]

/-- The text with a sign gives back a quantity as the text without one does. -/
theorem IsStable.ofText_toSignedText {q : Quantity} (h : q.IsStable) :
    ofText q.toSignedText = q := by
  cases q with
  | number n => exact ofText_of_read? (Numeral.read?_writeSigned n)
  | formula s => exact h

theorem isStable_number (n : Int64) : (number n).IsStable :=
  ofText_write n

theorem ofText_of_read?_eq_none {s : String} (h : Numeral.read? s = none) :
    ofText s = formula s := by
  rw [ofText, h]

theorem isStable_formula {s : String} (h : Numeral.read? s = none) : (formula s).IsStable :=
  ofText_of_read?_eq_none h

theorem isStable_of_formula {q : Quantity} (h : ∀ s, q = formula s → Numeral.read? s = none) :
    q.IsStable := by
  cases q with
  | number n => exact isStable_number n
  | formula s => exact isStable_formula (h s rfl)

/-- A field that holds no text is stable. -/
theorem isStable_of_bind {field : Option Quantity} (h : field.bind formula? = none) :
    ∀ q ∈ field, q.IsStable := by
  rintro q rfl
  refine isStable_of_formula fun s hs => ?_
  rw [hs] at h
  cases h

theorem IsStable.read?_eq_none {s : String} (h : (formula s).IsStable) :
    Numeral.read? s = none := by
  have hs : ofText s = formula s := h
  unfold ofText at hs
  split at hs
  · cases hs
  next hn => exact hn

/-- A quantity that is read is given back by its text. -/
theorem isStable_ofText (s : String) : (ofText s).IsStable := by
  unfold ofText
  split
  next n _ => exact isStable_number n
  next h => exact isStable_formula h

/-- A quantity that is read from a text is given back by its own, and holds no character that the text
does not hold. -/
theorem lacks_ofText {v : String} {x : Char} (h : x ∉ v.toList) :
    ∀ q ∈ some (ofText v), q.IsStable ∧ ∀ s ∈ q.formula?, x ∉ s.toList := by
  rintro q ⟨⟩
  refine ⟨isStable_ofText v, fun s hs => ?_⟩
  rw [eq_of_formula?_ofText hs]
  exact h

/-- The text of a quantity holds no quote and no closing bracket of its own. -/
theorem not_mem_toText {q : Quantity} {x : Char} (hx : x = '"' ∨ x = ']')
    (h : ∀ s ∈ q.formula?, x ∉ s.toList) : x ∉ q.toText.toList := by
  cases q with
  | number n => exact (Numeral.isPlain_write n).not_mem hx
  | formula s => exact h s rfl

end Quantity

namespace Average

/-- An average that its text gives back: a formula does not look like a number or a flag. -/
def IsStable (a : Average) : Prop :=
  ofText a.toText = a

instance (a : Average) : Decidable a.IsStable :=
  inferInstanceAs (Decidable (ofText a.toText = a))

/-- The text of an average that is neither a number nor a flag. -/
def formula? : Average → Option String
  | shown _ => none
  | number _ => none
  | formula s => some s

theorem eq_of_formula?_ofText {v s : String} (h : (ofText v).formula? = some s) : s = v := by
  unfold ofText at h
  split at h
  · cases h
  · split at h
    · cases h
    · split at h
      · cases h
      · exact (Option.some.inj h).symm

/-- Only an average that is a text has one that is neither a number nor a flag. -/
theorem eq_of_mem_formula? {o : Option Average} {s : String} (h : s ∈ o.bind formula?) :
    o = some (formula s) := by
  obtain ⟨a, rfl, hs⟩ := Option.bind_eq_some_iff.mp h
  cases a with
  | shown b => cases hs
  | number n => cases hs
  | formula t => rw [Option.some.inj hs]

theorem isStable_shown (b : Bool) : (shown b).IsStable := by
  cases b <;> rfl

/-- No flag is a number. -/
theorem ofText_of_read? {s : String} {n : Int64} (h : Numeral.read? s = some n) :
    ofText s = number n := by
  have hflag : ∀ t, Numeral.read? t = none → s ≠ t := by
    rintro t ht rfl
    rw [h] at ht
    cases ht
  rw [ofText, if_neg (hflag "true" (by decide)), if_neg (hflag "false" (by decide)), h]

theorem isStable_number (n : Int64) : (number n).IsStable :=
  ofText_of_read? (Numeral.read?_write n)

theorem isStable_formula {s : String} (ht : s ≠ "true") (hf : s ≠ "false")
    (h : Numeral.read? s = none) : (formula s).IsStable := by
  show ofText s = formula s
  rw [ofText, if_neg ht, if_neg hf, h]

theorem isStable_of_formula {a : Average}
    (h : ∀ s, a = formula s → Numeral.read? s = none ∧ s ≠ "true" ∧ s ≠ "false") :
    a.IsStable := by
  cases a with
  | shown b => exact isStable_shown b
  | number n => exact isStable_number n
  | formula s =>
    obtain ⟨hn, ht, hf⟩ := h s rfl
    exact isStable_formula ht hf hn

/-- An average that is read is given back by its text. -/
theorem isStable_ofText (s : String) : (ofText s).IsStable := by
  unfold ofText
  split
  · exact isStable_shown true
  next ht =>
    split
    · exact isStable_shown false
    next hf =>
      split
      next n _ => exact isStable_number n
      next h => exact isStable_formula ht hf h

/-- An average that is read from a text is given back by its own, and holds no character that the text
does not hold. -/
theorem lacks_ofText {v : String} {x : Char} (h : x ∉ v.toList) :
    ∀ a ∈ some (ofText v), a.IsStable ∧ ∀ s ∈ a.formula?, x ∉ s.toList := by
  rintro a ⟨⟩
  refine ⟨isStable_ofText v, fun s hs => ?_⟩
  rw [eq_of_formula?_ofText hs]
  exact h

/-- The text of an average holds no quote and no closing bracket of its own. -/
theorem not_mem_toText {a : Average} {x : Char} (hx : x = '"' ∨ x = ']')
    (h : ∀ s ∈ a.formula?, x ∉ s.toList) : x ∉ a.toText.toList := by
  cases a with
  | shown b => cases b <;> rcases hx with rfl | rfl <;> decide
  | number n => exact (Numeral.isPlain_write n).not_mem hx
  | formula s => exact h s rfl

end Average

end RollMarkup
