import Mathlib

/-!
# The order of texts and of their bytes

Texts are ordered character by character. In UTF-8 a greater character has a greater first byte, or the
same first byte and greater ones behind it, so that the bytes of texts are ordered as the texts are
(`bytes_lt`).
-/

namespace RollMarkup.Text

/-- The last `k` bytes of a character in UTF-8, for its number `m`: six bits in each of them. -/
def lastBytes (m : Nat) : Nat → List UInt8
  | 0 => []
  | k + 1 => UInt8.ofNat (m / 64 ^ k % 64 + 0x80) :: lastBytes m k

/-- How many bytes stand behind the first byte of a character. -/
def width (m : Nat) : Nat :=
  if m ≤ 0x7f then 0 else if m ≤ 0x7ff then 1 else if m ≤ 0xffff then 2 else 3

/-- The first byte of a character with `k` bytes behind it and the bits `q` that are left for this one. -/
def firstByte (q : Nat) : Nat → Nat
  | 0 => q
  | 1 => q % 0x20 + 0xc0
  | 2 => q % 0x10 + 0xe0
  | _ => q % 0x08 + 0xf0

/-- A character is encoded by its first byte and six bits in each of the others. -/
theorem utf8EncodeChar_eq (c : Char) :
    String.utf8EncodeChar c =
      UInt8.ofNat (firstByte (c.val.toNat / 64 ^ width c.val.toNat) (width c.val.toNat)) ::
        lastBytes c.val.toNat (width c.val.toNat) := by
  unfold String.utf8EncodeChar width
  dsimp only
  split_ifs <;> simp [firstByte, lastBytes]

theorem ofNat_lt {a b : Nat} (hb : b < 256) (h : a < b) : UInt8.ofNat a < UInt8.ofNat b := by
  rw [UInt8.lt_iff_toNat_lt, UInt8.toNat_ofNat', UInt8.toNat_ofNat']
  omega

/-- Of two numbers the smaller one has smaller bits before the last bytes, or it has the same and smaller
last bytes. -/
theorem lastBytes_lt {m n : Nat} (h : m < n) (k : Nat) (r s : List UInt8) :
    m / 64 ^ k < n / 64 ^ k ∨ m / 64 ^ k = n / 64 ^ k ∧ lastBytes m k ++ r < lastBytes n k ++ s := by
  induction k with
  | zero =>
    left
    simpa using h
  | succ k ih =>
    have hm : m / 64 ^ (k + 1) = m / 64 ^ k / 64 := by rw [pow_succ, Nat.div_div_eq_div_mul]
    have hn : n / 64 ^ (k + 1) = n / 64 ^ k / 64 := by rw [pow_succ, Nat.div_div_eq_div_mul]
    rw [hm, hn, lastBytes, lastBytes]
    rcases ih with hk | ⟨hk, htail⟩
    · by_cases hq : m / 64 ^ k / 64 = n / 64 ^ k / 64
      · exact .inr ⟨hq, .rel (ofNat_lt (by omega) (by omega))⟩
      · left
        omega
    · rw [hk]
      exact .inr ⟨rfl, .cons htail⟩

/-- The first byte grows with the width, and at one width with the bits that are left for it. -/
theorem firstByte_lt {m n : Nat} (h : m < n) (hn : n < 0x110000)
    (hsame : width m = width n → m / 64 ^ width m < n / 64 ^ width m) :
    firstByte (m / 64 ^ width m) (width m) < firstByte (n / 64 ^ width n) (width n) ∧
      firstByte (n / 64 ^ width n) (width n) < 256 := by
  unfold width at hsame ⊢
  split_ifs at hsame ⊢ <;> norm_num [firstByte] at hsame ⊢ <;> omega

/-- A greater character has greater bytes, whatever stands behind. -/
theorem utf8EncodeChar_lt {c d : Char} (h : c < d) (r s : List UInt8) :
    String.utf8EncodeChar c ++ r < String.utf8EncodeChar d ++ s := by
  have hcd : c.val.toNat < d.val.toNat := h
  have hd : d.val.toNat < 0x110000 := by
    rcases d.valid with hd | hd <;> omega
  rw [utf8EncodeChar_eq, utf8EncodeChar_eq, List.cons_append, List.cons_append]
  by_cases hwidth : width c.val.toNat = width d.val.toNat
  · rw [← hwidth]
    rcases lastBytes_lt hcd (width c.val.toNat) r s with hfirst | ⟨hfirst, hlast⟩
    · obtain ⟨hlt, hsmall⟩ := firstByte_lt hcd hd fun _ => hfirst
      rw [← hwidth] at hlt hsmall
      exact .rel (ofNat_lt hsmall hlt)
    · rw [hfirst]
      exact .cons hlast
  · obtain ⟨hlt, hsmall⟩ := firstByte_lt hcd hd fun hsame => absurd hsame hwidth
    exact .rel (ofNat_lt hsmall hlt)

/-- The bytes of a text in UTF-8. -/
def bytes (s : String) : List UInt8 :=
  s.toUTF8.data.toList

theorem bytes_eq (s : String) : bytes s = s.toList.flatMap String.utf8EncodeChar := by
  have hbytes : s.toUTF8 = (s.toList.flatMap String.utf8EncodeChar).toByteArray := by
    conv_lhs => rw [← String.ofList_toList (s := s)]
    rfl
  rw [bytes, hbytes, List.toList_data_toByteArray]

/-- The smaller of two texts has the smaller bytes. -/
theorem flatMap_utf8EncodeChar_lt {cs ds : List Char} (h : cs < ds) :
    cs.flatMap String.utf8EncodeChar < ds.flatMap String.utf8EncodeChar := by
  induction h with
  | @nil d ds =>
    rw [List.flatMap_nil, List.flatMap_cons, utf8EncodeChar_eq]
    exact .nil
  | cons _ ih =>
    rw [List.flatMap_cons, List.flatMap_cons]
    exact List.Lex.append_left _ ih _
  | rel hcd =>
    rw [List.flatMap_cons, List.flatMap_cons]
    exact utf8EncodeChar_lt hcd _ _

/-- Bytes are compared as texts are. -/
theorem bytes_lt {s t : String} (h : s < t) : bytes s < bytes t := by
  rw [bytes_eq, bytes_eq]
  exact flatMap_utf8EncodeChar_lt h

end RollMarkup.Text
