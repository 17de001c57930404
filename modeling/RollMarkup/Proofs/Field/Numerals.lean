import Mathlib
import RollMarkup.Proofs.Field.Values

/-!
# Which texts are numbers

A numeral is a row of ASCII digits behind at most one sign. It is read as the integer that it spells
exactly if it has a digit and 64 bits hold that integer (`read?_text`), which comes to the same as to
take its digits one by one and to stop where 64 bits are left (`foldlM_push?`). No other text is read as
a number (`read?_eq_some_iff`), so that quantities and averages keep it as it is (`ofText_numerals`).
-/

namespace RollMarkup

namespace Numeral

/-! ### Digits -/

/-- The number that a row of decimal digits spells. -/
def magnitude (ds : List (Fin 10)) : Nat :=
  Nat.ofDigits 10 (ds.map Fin.val).reverse

theorem magnitude_concat (ds : List (Fin 10)) (d : Fin 10) :
    magnitude (ds ++ [d]) = 10 * magnitude ds + d := by
  rw [magnitude, List.map_append, List.map_singleton, List.reverse_append, List.reverse_singleton,
    List.singleton_append, Nat.ofDigits_cons, magnitude]
  exact Nat.add_comm _ _

/-- The ASCII character of a digit. -/
def digitChar (d : Fin 10) : Char :=
  Nat.digitChar d

theorem isDigit_digitChar (d : Fin 10) : (digitChar d).isDigit = true := by
  rw [digitChar, Nat.isDigit_digitChar]
  exact decide_eq_true d.isLt

theorem exists_digit {c : Char} (h : c.isDigit = true) : ∃ d, digitChar d = c := by
  simp only [Char.isDigit, Bool.and_eq_true, decide_eq_true_eq] at h
  have low : 48 ≤ c.toNat := UInt32.le_iff_toNat_le.mp h.1
  have high : c.toNat ≤ 57 := UInt32.le_iff_toNat_le.mp h.2
  refine ⟨⟨c.toNat - 48, by omega⟩, Char.toNat_inj.mp ?_⟩
  rw [digitChar, Nat.toNat_digitChar_of_lt_ten (by show c.toNat - 48 < 10; omega)]
  show 48 + (c.toNat - 48) = c.toNat
  omega

theorem exists_digits {cs : List Char} (h : cs.all Char.isDigit = true) :
    ∃ ds : List (Fin 10), ds.map digitChar = cs := by
  induction cs with
  | nil => exact ⟨[], rfl⟩
  | cons c cs ih =>
    obtain ⟨hc, hcs⟩ := Bool.and_eq_true_iff.mp ((List.all_cons).symm.trans h)
    obtain ⟨d, rfl⟩ := exists_digit hc
    obtain ⟨ds, rfl⟩ := ih hcs
    exact ⟨d :: ds, rfl⟩

theorem ofDigitChars_digits (ds : List (Fin 10)) :
    Nat.ofDigitChars 10 (ds.map digitChar) 0 = magnitude ds := by
  induction ds using List.reverseRecOn with
  | nil => rfl
  | append_singleton ds d ih =>
    have hd : (digitChar d).toNat - '0'.toNat = d := by
      rw [digitChar, Nat.toNat_digitChar_of_lt_ten d.isLt]
      exact Nat.add_sub_cancel_left 48 d
    rw [List.map_append, Nat.ofDigitChars_append, ih, List.map_singleton, Nat.ofDigitChars_cons,
      Nat.ofDigitChars_nil, hd, magnitude_concat]

theorem all_isDigit_digits (ds : List (Fin 10)) : (ds.map digitChar).all Char.isDigit = true := by
  rw [List.all_map]
  exact List.all_eq_true.mpr fun d _ => isDigit_digitChar d

/-- Digits are read as the number they spell, if there are any. -/
theorem natural?_digits (ds : List (Fin 10)) :
    natural? (ds.map digitChar) = if ds = [] then none else some (magnitude ds) := by
  unfold natural?
  by_cases h : ds = []
  · simp [h]
  · rw [if_pos ⟨by simpa using h, all_isDigit_digits ds⟩, if_neg h, ofDigitChars_digits]

/-! ### Sixty-four bits -/

/-- An integer is held by the 64 bits that stand for it. -/
theorem ofInt?_eq_some_iff {v : Int} {n : Int64} : ofInt? v = some n ↔ n.toInt = v := by
  unfold ofInt?
  split
  next h =>
    have hv : (Int64.ofInt v).toInt = v :=
      Int64.toInt_ofInt_of_le h.1 (Int.lt_of_le_of_lt h.2 (by decide))
    constructor
    · intro hn
      rw [← Option.some.inj hn, hv]
    · rintro rfl
      rw [Int64.ofInt_toInt]
  next h =>
    refine ⟨fun hn => absurd hn (by simp), ?_⟩
    rintro rfl
    exact absurd ⟨Int64.minValue_le_toInt n, Int64.toInt_le n⟩ h

/-- Whether 64 bits hold an integer. -/
def IsHeld (v : Int) : Prop :=
  -2 ^ 63 ≤ v ∧ v < 2 ^ 63

instance (v : Int) : Decidable (IsHeld v) :=
  inferInstanceAs (Decidable (-2 ^ 63 ≤ v ∧ v < 2 ^ 63))

theorem ofInt?_eq_none_iff {v : Int} : ofInt? v = none ↔ ¬ IsHeld v := by
  have hmin : Int64.minValue.toInt = -2 ^ 63 := by decide
  have hmax : Int64.maxValue.toInt = 2 ^ 63 - 1 := by decide
  rw [ofInt?, hmin, hmax, IsHeld]
  split <;> simp <;> omega

/-- One more digit behind a number, as long as 64 bits hold what comes out of it. -/
def push? (sign : Option Sign) (n : Int64) (d : Fin 10) : Option Int64 :=
  (ofInt? (10 * n.toInt)).bind fun m => ofInt? (m.toInt + signed sign d)

/-- A digit more takes no number back that 64 bits do not hold. -/
theorem bind_push? (sign : Option Sign) (size : Nat) (d : Fin 10) :
    ((ofInt? (signed sign size)).bind fun n => push? sign n d) =
      ofInt? (signed sign (10 * size + d)) := by
  have hstep : signed sign (10 * size + d) = 10 * signed sign size + signed sign d := by
    unfold signed
    split <;> push_cast <;> omega
  -- a size that is too large stays so, as the digit is added on the side where the number is
  have hgrows : ¬ IsHeld (10 * signed sign size) → ¬ IsHeld (signed sign (10 * size + d)) := by
    unfold IsHeld signed
    split <;> push_cast <;> omega
  have hlarge : ¬ IsHeld (signed sign size) → ¬ IsHeld (10 * signed sign size) := by
    unfold IsHeld
    omega
  cases hn : ofInt? (signed sign size) with
  | none =>
    rw [Option.bind_none, eq_comm, ofInt?_eq_none_iff]
    exact hgrows (hlarge (ofInt?_eq_none_iff.mp hn))
  | some n =>
    rw [Option.bind_some, push?, ofInt?_eq_some_iff.mp hn]
    cases hm : ofInt? (10 * signed sign size) with
    | none =>
      rw [Option.bind_none, eq_comm, ofInt?_eq_none_iff]
      exact hgrows (ofInt?_eq_none_iff.mp hm)
    | some m => rw [Option.bind_some, ofInt?_eq_some_iff.mp hm, hstep]

/-- Digits are taken one by one as long as 64 bits hold the number, which is so to the end exactly if
they hold the integer that all of them spell. -/
theorem foldlM_push? (sign : Option Sign) (ds : List (Fin 10)) :
    ds.foldlM (push? sign) 0 = ofInt? (signed sign (magnitude ds)) := by
  induction ds using List.reverseRecOn with
  | nil => cases sign with
    | none => rfl
    | some sign => cases sign <;> rfl
  | append_singleton ds d ih =>
    rw [List.foldlM_append, ih, magnitude_concat, ← bind_push?]
    simp

/-! ### Numerals -/

/-- Digits, of which there may be none, behind at most one sign. -/
structure Row where
  sign : Option Sign := none
  digits : List (Fin 10)

namespace Row

/-- The text of a numeral. -/
def text (r : Row) : String :=
  String.ofList (front r.sign ++ r.digits.map digitChar)

/-- The integer that a numeral spells. -/
def value (r : Row) : Int :=
  signed r.sign (magnitude r.digits)

/-- A numeral that stands for a 64-bit integer: it has a digit, and 64 bits hold what it spells. -/
def IsInteger (r : Row) : Prop :=
  r.digits ≠ [] ∧ IsHeld r.value

instance (r : Row) : Decidable r.IsInteger :=
  inferInstanceAs (Decidable (r.digits ≠ [] ∧ IsHeld r.value))

theorem mem_text {r : Row} {c : Char} (h : c ∈ r.text.toList) :
    c.isDigit = true ∨ c = '-' ∨ c = '+' := by
  rw [text, String.toList_ofList, List.mem_append] at h
  rcases h with h | h
  · exact .inr (mem_front h)
  · obtain ⟨d, -, rfl⟩ := List.mem_map.mp h
    exact .inl (isDigit_digitChar d)

theorem text_ne {s : String} {c : Char} (hc : c ∈ s.toList)
    (h : ¬(c.isDigit = true ∨ c = '-' ∨ c = '+')) (r : Row) : r.text ≠ s := by
  rintro rfl
  exact h (mem_text hc)

end Row

/-- A numeral is read as what its digits spell behind its sign. -/
theorem read?_text (r : Row) :
    read? r.text = if r.digits = [] then none else ofInt? r.value := by
  rw [read?, Row.text, String.toList_ofList, ofChars?_front r.sign (all_isDigit_digits r.digits),
    natural?_digits]
  split <;> rfl

/-- A numeral is read as an integer exactly if it has a digit and 64 bits hold what it spells. -/
theorem read?_text_eq_none_iff (r : Row) : read? r.text = none ↔ ¬ r.IsInteger := by
  rw [read?_text, Row.IsInteger]
  split
  next h => simp [h]
  next h => simp [h, ofInt?_eq_none_iff]

/-- A text that is read as an integer is a numeral that spells it. -/
theorem exists_text_of_read? {s : String} {n : Int64} (h : read? s = some n) :
    ∃ r : Row, r.text = s ∧ r.digits ≠ [] ∧ r.value = n.toInt := by
  obtain ⟨sign, cs, m, hs, hm, hn⟩ := exists_of_ofChars? h
  obtain ⟨ds, rfl⟩ := exists_digits (all_isDigit_of_natural? hm)
  rw [natural?_digits] at hm
  split at hm
  next => cases hm
  next hne =>
    refine ⟨⟨sign, ds⟩, ?_, hne, ?_⟩
    · rw [Row.text, ← hs, String.ofList_toList]
    · rw [Row.value, Option.some.inj hm]
      exact (ofInt?_eq_some_iff.mp hn).symm

/-- The text of every 64-bit integer, with its sign and without, is read as that integer. A numeral is
read as the integer that it spells if it has a digit and 64 bits hold that integer, as they do exactly if
no digit takes the number out of them, and is kept as a text otherwise. So is any text that is no numeral,
but for the flags of an average. What was read is read again from its own text. -/
theorem ofText_numerals :
    (∀ n : Int64, Quantity.ofText (write n) = .number n ∧ Average.ofText (write n) = .number n ∧
      Quantity.ofText (Quantity.number n).toSignedText = .number n) ∧
    (∀ r : Row, r.IsInteger → ∃ n : Int64, n.toInt = r.value ∧
      Quantity.ofText r.text = .number n ∧ Average.ofText r.text = .number n) ∧
    (∀ r : Row, ¬ r.IsInteger →
      Quantity.ofText r.text = .formula r.text ∧ Average.ofText r.text = .formula r.text) ∧
    (∀ r : Row, read? r.text = if r.digits = [] then none else r.digits.foldlM (push? r.sign) 0) ∧
    (∀ s : String, (∀ r : Row, r.text ≠ s) → Quantity.ofText s = .formula s ∧
      Average.ofText s =
        if s = "true" then .shown true else if s = "false" then .shown false else .formula s) ∧
    ∀ s : String, Quantity.ofText (Quantity.ofText s).toText = Quantity.ofText s ∧
      Average.ofText (Average.ofText s).toText = Average.ofText s := by
  refine ⟨fun n => ⟨Quantity.ofText_write n, Average.isStable_number n,
    Quantity.ofText_of_read? (read?_writeSigned n)⟩, fun r h => ?_, fun r h => ?_, fun r => ?_,
    fun s h => ?_, fun s => ⟨Quantity.isStable_ofText s, Average.isStable_ofText s⟩⟩
  · cases hread : read? r.text with
    | none => exact absurd h ((read?_text_eq_none_iff r).mp hread)
    | some n =>
      have hvalue := hread
      rw [read?_text, if_neg h.1, ofInt?_eq_some_iff] at hvalue
      exact ⟨n, hvalue, Quantity.ofText_of_read? hread, Average.ofText_of_read? hread⟩
  · have hread := (read?_text_eq_none_iff r).mpr h
    -- a numeral has no letters, so that it is no flag either
    have htrue : r.text ≠ "true" := Row.text_ne (c := 't') (by decide) (by decide) r
    have hfalse : r.text ≠ "false" := Row.text_ne (c := 'f') (by decide) (by decide) r
    exact ⟨Quantity.ofText_of_read?_eq_none hread, Average.isStable_formula htrue hfalse hread⟩
  · rw [read?_text, foldlM_push?, Row.value]
  · have hread : read? s = none := by
      cases hread : read? s with
      | none => rfl
      | some n =>
        obtain ⟨r, hr, -⟩ := exists_text_of_read? hread
        exact absurd hr (h r)
    exact ⟨Quantity.ofText_of_read?_eq_none hread, by rw [Average.ofText, hread]⟩

/-- The least integer behind a zero, one past the greatest behind a sign, a sign alone, and a flag. -/
theorem ofText_numerals_bounds :
    Quantity.ofText "-09223372036854775808" = .number Int64.minValue ∧
      Quantity.ofText "+9223372036854775808" = .formula "+9223372036854775808" ∧
      Average.ofText "-" = .formula "-" ∧
      Quantity.ofText "true" = .formula "true" ∧ Average.ofText "true" = .shown true := by
  let least : Row := ⟨some .minus, [0, 9, 2, 2, 3, 3, 7, 2, 0, 3, 6, 8, 5, 4, 7, 7, 5, 8, 0, 8]⟩
  let past : Row := ⟨some .plus, [9, 2, 2, 3, 3, 7, 2, 0, 3, 6, 8, 5, 4, 7, 7, 5, 8, 0, 8]⟩
  let bare : Row := ⟨some .minus, []⟩
  obtain ⟨-, hinteger, htext, -, hother, -⟩ := ofText_numerals
  obtain ⟨n, hn, hleast, -⟩ := hinteger least (by decide)
  have hmin : n = Int64.minValue := Int64.toInt_inj.mp (hn.trans (by decide))
  have hflag := hother "true" (Row.text_ne (c := 't') (by decide) (by decide))
  exact ⟨hmin ▸ hleast, (htext past (by decide)).1, (htext bare (by decide)).2, hflag.1, hflag.2⟩

end Numeral

end RollMarkup
