import Mathlib
import RollMarkup.Numeral.Integer
import RollMarkup.Proofs.Token.Spacing
import RollMarkup.Text.LetterCase

/-!
# Integers as text

The decimal text of a 64-bit integer is read as that integer, and it is a word. What is read as an
integer has digits and signs only.
-/

namespace RollMarkup

namespace Numeral

theorem all_isDigit_toDigits (n : Nat) : (Nat.toDigits 10 n).all Char.isDigit = true :=
  List.all_eq_true.mpr fun _ hc => Nat.isDigit_of_mem_toDigits (by decide) (by decide) hc

theorem natural?_toDigits (n : Nat) : natural? (Nat.toDigits 10 n) = some n := by
  rw [natural?, if_pos ⟨Nat.toDigits_ne_nil, all_isDigit_toDigits n⟩, Nat.ofDigitChars_ten_toDigits]

theorem all_isDigit_of_natural? {cs : List Char} {m : Nat} (h : natural? cs = some m) :
    cs.all Char.isDigit = true := by
  unfold natural? at h
  split at h
  next hcs => exact hcs.2
  next => cases h

theorem ofInt?_toInt (n : Int64) : ofInt? n.toInt = some n := by
  rw [ofInt?, if_pos ⟨Int64.minValue_le_toInt n, Int64.toInt_le n⟩, Int64.ofInt_toInt]

/-- The text of a natural number begins with a digit, so that it has no sign. -/
theorem toDigits_cons (n : Nat) :
    ∃ c cs, Nat.toDigits 10 n = c :: cs ∧ c ≠ '-' ∧ c ≠ '+' := by
  cases h : Nat.toDigits 10 n with
  | nil => exact absurd h Nat.toDigits_ne_nil
  | cons c cs =>
    have hd : c.isDigit = true :=
      Nat.isDigit_of_mem_toDigits (b := 10) (n := n) (by decide) (by decide) (by simp [h])
    refine ⟨c, cs, rfl, ?_, ?_⟩ <;> rintro rfl <;> exact absurd hd (by decide)

/-! ### Signs -/

/-- The sign in front of an integer. -/
inductive Sign where
  | plus
  | minus
  deriving DecidableEq

/-- The characters of a sign, none where it is left out. -/
def front : Option Sign → List Char
  | none => []
  | some .plus => ['+']
  | some .minus => ['-']

theorem mem_front {sign : Option Sign} {c : Char} (h : c ∈ front sign) : c = '-' ∨ c = '+' := by
  match sign with
  | none => cases h
  | some .plus => exact .inr (List.mem_singleton.mp h)
  | some .minus => exact .inl (List.mem_singleton.mp h)

/-- The integer of this size on the side of zero that the sign names. -/
def signed (sign : Option Sign) (size : Nat) : Int :=
  if sign = some .minus then -size else size

/-- Digits behind a sign, or behind none, are read as the integer they are the size of. -/
theorem ofChars?_front (sign : Option Sign) {ds : List Char} (h : ds.all Char.isDigit = true) :
    ofChars? (front sign ++ ds) = (natural? ds).bind fun m => ofInt? (signed sign m) := by
  match sign with
  | some .plus => rfl
  | some .minus => rfl
  | none =>
    -- no digit is taken for a sign
    rw [front, List.nil_append]
    unfold ofChars?
    split
    · cases h
    · cases h
    · rfl

theorem ofChars?_toDigits (sign : Option Sign) (n : Nat) :
    ofChars? (front sign ++ Nat.toDigits 10 n) = ofInt? (signed sign n) := by
  rw [ofChars?_front sign (all_isDigit_toDigits n), natural?_toDigits, Option.bind_some]

/-- Nothing is read as an integer but digits behind at most one sign. -/
theorem exists_of_ofChars? {cs : List Char} {n : Int64} (h : ofChars? cs = some n) :
    ∃ sign ds m, cs = front sign ++ ds ∧ natural? ds = some m ∧ ofInt? (signed sign m) = some n := by
  unfold ofChars? at h
  split at h
  next ds =>
    obtain ⟨m, hm, hn⟩ := Option.bind_eq_some_iff.mp h
    exact ⟨some .minus, ds, m, rfl, hm, hn⟩
  next ds =>
    obtain ⟨m, hm, hn⟩ := Option.bind_eq_some_iff.mp h
    exact ⟨some .plus, ds, m, rfl, hm, hn⟩
  next =>
    obtain ⟨m, hm, hn⟩ := Option.bind_eq_some_iff.mp h
    exact ⟨none, cs, m, rfl, hm, hn⟩

/-! ### Writing -/

theorem toList_repr (n : Int) :
    n.repr.toList = if 0 ≤ n then Nat.toDigits 10 n.toNat
      else '-' :: Nat.toDigits 10 (-n).toNat := by
  rw [Int.repr_eq_if]
  split <;> simp [Nat.toList_repr]

theorem toList_write (n : Int64) :
    (write n).toList = if 0 ≤ n.toInt then Nat.toDigits 10 n.toInt.toNat
      else '-' :: Nat.toDigits 10 (-n.toInt).toNat :=
  toList_repr n.toInt

/-- The decimal text of an integer is read as that integer. -/
theorem read?_write (n : Int64) : read? (write n) = some n := by
  rw [read?, toList_write]
  split
  next h =>
    have hpos : signed none n.toInt.toNat = n.toInt := Int.toNat_of_nonneg h
    exact (ofChars?_toDigits none n.toInt.toNat).trans (by rw [hpos, ofInt?_toInt])
  next h =>
    have hneg : signed (some .minus) (-n.toInt).toNat = n.toInt := by
      rw [signed, if_pos rfl]
      omega
    exact (ofChars?_toDigits (some .minus) (-n.toInt).toNat).trans (by rw [hneg, ofInt?_toInt])

theorem toList_writeSigned (n : Int64) :
    (writeSigned n).toList = if 0 ≤ n then '+' :: (write n).toList else (write n).toList := by
  unfold writeSigned
  split <;> simp

/-- A sign in front of the digits changes nothing. -/
theorem read?_writeSigned (n : Int64) : read? (writeSigned n) = some n := by
  by_cases h : 0 ≤ n
  · have hn : 0 ≤ n.toInt := Int64.le_iff_toInt_le.mp h
    have hpos : signed (some .plus) n.toInt.toNat = n.toInt := Int.toNat_of_nonneg hn
    rw [read?, toList_writeSigned, if_pos h, toList_write, if_pos hn]
    exact (ofChars?_toDigits (some .plus) n.toInt.toNat).trans (by rw [hpos, ofInt?_toInt])
  · rw [read?, toList_writeSigned, if_neg h]
    exact read?_write n

/-- A character of the decimal text of an integer is a digit or the minus sign. -/
theorem mem_repr {n : Int} {c : Char} (h : c ∈ n.repr.toList) : c.isDigit = true ∨ c = '-' := by
  have hdigit : ∀ m : Nat, c ∈ Nat.toDigits 10 m → c.isDigit = true :=
    fun m hc => Nat.isDigit_of_mem_toDigits (by decide) (by decide) hc
  rw [toList_repr] at h
  split at h
  · exact .inl (hdigit _ h)
  · rcases List.mem_cons.mp h with rfl | h
    · exact .inr rfl
    · exact .inl (hdigit _ h)

theorem mem_write {n : Int64} {c : Char} (h : c ∈ (write n).toList) : c.isDigit = true ∨ c = '-' :=
  mem_repr h

/-- The text of an integer is a plain word. -/
theorem isPlain_write (n : Int64) : Token.IsPlain (write n) := by
  have hchar : ∀ c ∈ (write n).toList, ∀ d, d.isDigit = false → d ≠ '-' → c ≠ d := by
    rintro c hc d hd hm rfl
    rcases mem_write hc with h | h
    · rw [hd] at h
      cases h
    · exact hm h
  refine ⟨⟨?_, fun c hc => ⟨?_, ?_, ?_⟩⟩, fun hc => ?_, fun hc => ?_⟩
  · intro h
    have hr := read?_write n
    rw [h] at hr
    cases hr
  · rcases mem_write hc with h | rfl
    · exact Text.isBlank_of_isAlphanum (by rw [Char.isAlphanum, h, Bool.or_true])
    · decide
  · exact hchar c hc '=' (by decide) (by decide)
  · exact hchar c hc '"' (by decide) (by decide)
  · exact hchar _ hc '/' (by decide) (by decide) rfl
  · exact hchar _ hc ']' (by decide) (by decide) rfl

/-- The text of an integer with its sign is a word. -/
theorem isWord_writeSigned (n : Int64) : Token.IsWord (writeSigned n) := by
  have hword := (isPlain_write n).1
  unfold writeSigned
  split
  · refine ⟨by simp, fun c hc => ?_⟩
    rcases List.mem_cons.mp (show c ∈ '+' :: (write n).toList by simpa using hc) with rfl | hc
    · decide
    · exact hword.2 c hc
  · exact hword

theorem not_mem_writeSigned (n : Int64) {x : Char} (hx : x = '"' ∨ x = ']') :
    x ∉ (writeSigned n).toList := by
  have hn := (isPlain_write n).not_mem hx
  rw [toList_writeSigned]
  split
  · rw [List.mem_cons, not_or]
    exact ⟨by rcases hx with rfl | rfl <;> decide, hn⟩
  · exact hn

/-- The characters of a text that is read as an integer are digits and signs. -/
theorem mem_of_read? {s : String} {n : Int64} {c : Char} (h : read? s = some n)
    (hc : c ∈ s.toList) : c.isDigit = true ∨ c = '-' ∨ c = '+' := by
  obtain ⟨sign, ds, m, hs, hm, -⟩ := exists_of_ofChars? h
  rw [hs, List.mem_append] at hc
  rcases hc with hc | hc
  · exact .inr (mem_front hc)
  · exact .inl (List.all_eq_true.mp (all_isDigit_of_natural? hm) c hc)

/-- The case of letters does not matter to the text of an integer. -/
theorem lower_of_read? {s : String} {n : Int64} (h : read? s = some n) : Text.lower s = s := by
  have hchar : ∀ c ∈ s.toList, Text.lowerChar c = c := by
    intro c hc
    rcases mem_of_read? h hc with hd | rfl | rfl
    · simp only [Char.isDigit, Bool.and_eq_true, decide_eq_true_eq] at hd
      have high : c.toNat ≤ 0x39 := UInt32.le_iff_toNat_le.mp hd.2
      have hk : c ≠ '\u212a' := by
        rintro rfl
        exact absurd high (by decide)
      have hu : ¬(c.val ≥ 'A'.val ∧ c.val ≤ 'Z'.val) := by
        rintro ⟨hu, -⟩
        have low : 0x41 ≤ c.toNat := UInt32.le_iff_toNat_le.mp hu
        omega
      rw [Text.lowerChar, if_neg hk, Char.toLower, dif_neg hu]
    · decide
    · decide
  rw [Text.lower, List.map_congr_left hchar, List.map_id', String.ofList_toList]

end Numeral

end RollMarkup
