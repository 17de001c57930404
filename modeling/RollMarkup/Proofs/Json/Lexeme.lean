import Mathlib
import RollMarkup.Json.Reader
import RollMarkup.Proofs.Numeral.Integer

/-!
# Lexemes of JSON texts

A text spells lexemes if it is read as these, whatever stands behind it (`Spells`). Strings between
quotes, integers, the three words and punctuation spell one lexeme each, and texts are put together from
them. Behind a number or a word there has to be something that could not go on with it.
-/

namespace RollMarkup.Json

namespace NumberText

/-- The digits of a number begin with a zero only if that is the number. -/
theorem head?_toDigits (n : Nat) :
    (Nat.toDigits 10 n).head? ≠ some '0' ∨ Nat.toDigits 10 n = ['0'] := by
  induction n using Nat.strongRecOn with
  | ind n ih =>
    by_cases hn : n < 10
    · have hdigit : ∀ d < 10, [Nat.digitChar d].head? ≠ some '0' ∨ [Nat.digitChar d] = ['0'] := by
        decide
      rw [Nat.toDigits_of_lt_base hn]
      exact hdigit n hn
    · have hrest := ih (n / 10) (by omega)
      rw [Nat.toDigits_of_base_le (by decide) (by omega), List.head?_append]
      rcases hrest with hrest | hrest
      · left
        cases h : Nat.toDigits 10 (n / 10) with
        | nil => exact absurd h Nat.toDigits_ne_nil
        | cons c cs =>
          rw [h] at hrest
          exact hrest
      · have hvalue := Nat.ofDigitChars_ten_toDigits (n := n / 10)
        rw [hrest] at hvalue
        have hzero : Nat.ofDigitChars 10 ['0'] 0 = 0 := by decide
        omega

theorem whole?_toDigits (n : Nat) :
    whole? (Nat.toDigits 10 n) = some (Nat.toDigits 10 n, []) := by
  have hdigit : ∀ c ∈ Nat.toDigits 10 n, c.isDigit = true :=
    fun c hc => Nat.isDigit_of_mem_toDigits (by decide) (by decide) hc
  have hdigits : digits? (Nat.toDigits 10 n) = some (Nat.toDigits 10 n, []) := by
    rw [digits?, List.takeWhile_eq_self_iff.mpr hdigit,
      List.dropWhile_eq_nil_iff.mpr hdigit]
    exact if_neg Nat.toDigits_ne_nil
  rw [whole?, hdigits, Option.filter_some, if_pos]
  simpa using head?_toDigits n

theorem ofChars?_toDigits (n : Nat) :
    ofChars? (Nat.toDigits 10 n) = some ⟨false, Nat.toDigits 10 n, none, none⟩ := by
  have hw := whole?_toDigits n
  unfold ofChars?
  split
  next ds heq =>
    have hd := Nat.isDigit_of_mem_toDigits (b := 10) (n := n) (c := '-') (by decide) (by decide)
      (by rw [heq]; exact List.mem_cons_self)
    exact absurd hd (by decide)
  next =>
    simp only [hw, Option.bind_some]
    rfl

theorem ofChars?_minus (n : Nat) :
    ofChars? ('-' :: Nat.toDigits 10 n) =
      some ⟨true, Nat.toDigits 10 n, none, none⟩ := by
  have hw := whole?_toDigits n
  simp only [ofChars?, hw, Option.bind_some]
  rfl

end NumberText

/-- The digits of a natural number are read as that number. -/
theorem number?_toDigits {n : Nat} (h : n < 2 ^ 64) :
    number? (Nat.toDigits 10 n) = some (.int n) := by
  have hsize : n < UInt64.size := h
  simp only [number?, NumberText.ofChars?_toDigits, Option.bind_some, Nat.ofDigitChars_ten_toDigits,
    hsize]
  rfl

theorem number?_minus {n : Nat} (hpos : 0 < n) (h : n ≤ 2 ^ 63) :
    number? ('-' :: Nat.toDigits 10 n) = some (.int (-n)) := by
  have hsize : n ≤ 0x8000000000000000 := h
  simp only [number?, NumberText.ofChars?_minus, Option.bind_some, Nat.ofDigitChars_ten_toDigits,
    hpos, hsize]
  rfl

/-- The text of an integer that 64 bits have room for, with or without a sign, is read as that
integer. -/
theorem number?_repr {n : Int} (low : -2 ^ 63 ≤ n) (high : n < 2 ^ 64) :
    number? n.repr.toList = some (.int n) := by
  rw [Numeral.toList_repr]
  split
  next h => rw [number?_toDigits (by omega), Int.toNat_of_nonneg h]
  next h =>
    have hvalue : -((-n).toNat : Int) = n := by omega
    rw [number?_minus (by omega) (by omega), hvalue]

namespace Lexeme

/-! ### Strings -/

/-- A character is read from what it is written as between quotes. -/
theorem units?_escape (c : Char) (cs : List Char) :
    units? (escape c ++ cs) = (units? cs).map fun p => (.char c :: p.1, p.2) := by
  unfold escape
  -- seven characters have an escape of their own
  iterate 7
    split
    · subst c
      rfl
  split
  next hlow =>
    have hhigh := Text.hexValue?_hexDigit (c.toNat / 16) (by omega)
    have hrest := Text.hexValue?_hexDigit (c.toNat % 16) (by omega)
    have hvalue : c.toNat / 16 * 16 + c.toNat % 16 = c.toNat := by omega
    have hunit : unit? '0' '0' (Text.hexDigit (c.toNat / 16)) (Text.hexDigit (c.toNat % 16)) =
        some (.char c) := by
      have hzero : Text.hexValue? '0' = some 0 := by decide
      have hsmall : ¬(0xD800 ≤ c.toNat ∧ c.toNat < 0xE000) := by omega
      simp only [unit?, hzero, hhigh, hrest, Option.bind_eq_bind, Option.bind_some, hvalue,
        Nat.zero_mul, Nat.zero_add, if_neg hsmall, Char.ofNat_toNat]
    show (unit? _ _ _ _).bind _ = _
    rw [hunit, Option.bind_some]
    rfl
  next hquote hbackslash _ _ _ _ _ hlow =>
    rw [List.singleton_append, units?.eq_def]
    split
    · next heq => cases heq
    · next heq => exact absurd (List.cons.inj heq).1 hquote
    · next heq => exact absurd (List.cons.inj heq).1 hbackslash
    · next heq => exact absurd (List.cons.inj heq).1 hbackslash
    · next heq =>
      obtain ⟨rfl, rfl⟩ := List.cons.inj heq
      rw [if_neg (not_or.mpr ⟨hbackslash, hlow⟩)]

theorem units?_escaped (cs rest : List Char) :
    units? (cs.flatMap escape ++ '"' :: rest) = some (cs.map .char, rest) := by
  induction cs with
  | nil => rfl
  | cons c cs ih =>
    rw [List.flatMap_cons, List.append_assoc, units?_escape, ih, Option.map_some, List.map_cons]

theorem joinUnits?_chars (cs : List Char) : joinUnits? (cs.map .char) = some cs := by
  induction cs with
  | nil => rfl
  | cons c cs ih => rw [List.map_cons, joinUnits?, ih, Option.map_some]

/-- A string is read back from its escaped characters. -/
theorem string?_escaped (s : String) (rest : List Char) :
    string? (s.toList.flatMap escape ++ '"' :: rest) = some (s, rest) := by
  rw [string?, units?_escaped, Option.bind_some, joinUnits?_chars, Option.map_some,
    String.ofList_toList]

theorem toList_quote (s : String) (rest : List Char) :
    (quote s).toList ++ rest = '"' :: (s.toList.flatMap escape ++ '"' :: rest) := by
  rw [quote, String.toList_ofList]
  simp

/-! ### Words -/

/-- The text of an integer is read as a word that is that integer. -/
theorem word?_repr {n : Int} (low : -2 ^ 63 ≤ n) (high : n < 2 ^ 64) :
    word? n.repr.toList = some (.int n) := by
  -- no digit and no sign is a letter of the three words
  have hword : ∀ w : List Char, (∃ c ∈ w, c.isDigit = false ∧ c ≠ '-') → n.repr.toList ≠ w := by
    rintro w ⟨c, hc, hdigit, hminus⟩ rfl
    rcases Numeral.mem_repr hc with h | h
    · rw [hdigit] at h
      cases h
    · exact hminus h
  have hnull := hword "null".toList ⟨'n', by decide⟩
  have htrue := hword "true".toList ⟨'t', by decide⟩
  have hfalse := hword "false".toList ⟨'f', by decide⟩
  rw [word?, if_neg hnull, if_neg htrue, if_neg hfalse, number?_repr low high]

/-- A character that could go on with a word. -/
theorem isWordChar_repr {n : Int} {c : Char} (hc : c ∈ n.repr.toList) : isWordChar c = true := by
  rcases Numeral.mem_repr hc with h | rfl
  · simp only [isWordChar, Char.isAlphanum, h, Bool.or_true, Bool.true_or]
  · rfl

theorem not_isGap {c : Char} (h : isWordChar c = true) : isGap c = false := by
  rw [Bool.eq_false_iff]
  intro hgap
  simp only [isGap, Bool.or_eq_true, decide_eq_true_eq] at hgap
  rcases hgap with ((rfl | rfl) | rfl) | rfl <;> exact absurd h (by decide)

theorem punctuation?_eq_none {c : Char} (h : isWordChar c = true) : punctuation? c = none := by
  rw [punctuation?, List.lookup_eq_none_iff]
  intro p hp
  have hp : isWordChar p.1 = false := by
    revert p
    decide
  rw [bne_iff_ne]
  rintro rfl
  rw [h] at hp
  cases hp

/-! ### Texts that spell lexemes -/

/-- Whether a text does not go on with a word in front of it. -/
def EndsWord (cs : List Char) : Prop :=
  ∀ c ∈ cs.head?, isWordChar c = false

/-- A text that is read as these lexemes, and leaves what is behind it, if that does not go on with its
last word. -/
def Spells (cs : List Char) (ls : List Lexeme) : Prop :=
  ∀ rest, EndsWord rest → ofChars? (cs ++ rest) = (ofChars? rest).map (ls ++ ·)

variable {cs ds : List Char} {ls ms : List Lexeme}

theorem endsWord_append (hcs : EndsWord cs) (hds : EndsWord ds) : EndsWord (cs ++ ds) := by
  cases cs with
  | nil => exact hds
  | cons c cs => exact hcs

namespace Spells

theorem nil : Spells [] [] := by
  intro rest _
  simp

/-- What is behind a text that spells lexemes may spell more. -/
theorem append (hcs : Spells cs ls) (hds : Spells ds ms) (hend : EndsWord ds) :
    Spells (cs ++ ds) (ls ++ ms) := by
  intro rest hrest
  rw [List.append_assoc, hcs _ (endsWord_append hend hrest), hds _ hrest, Option.map_map]
  simp only [Function.comp_def, List.append_assoc]

theorem gap {c : Char} (hc : isGap c = true) (hcs : Spells cs ls) : Spells (c :: cs) ls := by
  intro rest hrest
  rw [List.cons_append, ofChars?, if_pos hc]
  exact hcs rest hrest

theorem gaps {gs : List Char} (hgs : ∀ c ∈ gs, isGap c = true) (hcs : Spells cs ls) :
    Spells (gs ++ cs) ls := by
  induction gs with
  | nil => exact hcs
  | cons c gs ih =>
    obtain ⟨hc, hgs⟩ := List.forall_mem_cons.mp hgs
    exact gap hc (ih hgs)

theorem punctuation {c : Char} {l : Lexeme} (hgap : isGap c = false) (hc : punctuation? c = some l)
    (hcs : Spells cs ls) : Spells (c :: cs) (l :: ls) := by
  intro rest hrest
  rw [List.cons_append, ofChars?, if_neg (Bool.eq_false_iff.mp hgap), hc]
  simp only [hcs rest hrest, Option.map_map, Function.comp_def, List.cons_append]

/-- A string between quotes. -/
theorem quoted (s : String) (hcs : Spells cs ls) :
    Spells ((quote s).toList ++ cs) (.value (.str s) :: ls) := by
  intro rest hrest
  have hgap : ¬isGap '"' = true := by decide
  have hquote : punctuation? '"' = none := by decide
  rw [List.append_assoc, toList_quote, ofChars?, if_neg hgap, hquote]
  simp only [if_true]
  split
  next h => rw [string?_escaped] at h; cases h
  next p h =>
    rw [string?_escaped] at h
    obtain rfl := Option.some.inj h
    simp only [hcs rest hrest, Option.map_map, Function.comp_def, List.cons_append]

/-- A number or one of the three words. -/
theorem word {w : List Char} {v : Json} (hne : w ≠ []) (hw : w.all isWordChar = true)
    (hv : word? w = some v) : Spells w [.value v] := by
  intro rest hrest
  obtain ⟨c, w, rfl⟩ := List.exists_cons_of_ne_nil hne
  obtain ⟨hc, hall⟩ := List.forall_mem_cons.mp (List.all_eq_true.mp hw)
  have htake : (w ++ rest).takeWhile isWordChar = w := by
    rw [List.takeWhile_append_of_pos hall]
    cases rest with
    | nil => simp
    | cons d ds => rw [List.takeWhile_cons, hrest d rfl]; simp
  have hdrop : (w ++ rest).dropWhile isWordChar = rest := by
    rw [List.dropWhile_append_of_pos hall]
    cases rest with
    | nil => rfl
    | cons d ds => rw [List.dropWhile_cons, hrest d rfl]; simp
  have hquote : c ≠ '"' := by
    rintro rfl
    exact absurd hc (by decide)
  rw [List.cons_append, ofChars?, not_isGap hc, punctuation?_eq_none hc]
  simp only [Bool.false_eq_true, if_false, hquote, htake, hdrop, hv, Option.bind_some]
  rfl

/-- Texts with commas between them, and gaps behind the commas. -/
theorem intercalate {items : List String} {lss : List (List Lexeme)}
    (h : List.Forall₂ (fun item ls => Spells item.toList ls) items lss) {gs : List Char}
    (hgs : ∀ c ∈ gs, isGap c = true) (hcs : Spells cs ls) (hend : EndsWord cs) :
    Spells ((',' :: gs).intercalate (items.map String.toList) ++ cs)
      ([comma].intercalate lss ++ ls) := by
  induction h with
  | nil => exact hcs
  | @cons item ls₀ items lss hitem hitems ih =>
    cases hitems with
    | nil =>
      rw [List.map_cons, List.map_nil, List.intercalate_singleton, List.intercalate_singleton]
      exact append hitem hcs hend
    | cons hnext hrest =>
      rw [List.map_cons, List.map_cons, List.intercalate_cons_cons, List.intercalate_cons_cons,
        ← List.map_cons, List.append_assoc, List.append_assoc, List.append_assoc, List.append_assoc]
      refine append hitem (punctuation (by decide) rfl (gaps hgs ih)) ?_
      rintro c ⟨⟩
      decide

end Spells

end Lexeme

end RollMarkup.Json
