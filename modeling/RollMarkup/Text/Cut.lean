/-!
# Cutting and joining texts

Each cut is described by what it leaves: `behind?_eq_some_iff` and `eq_append_of_upTo?` say how the
parts make up the text again.
-/

namespace RollMarkup.Text

/-- What stands before the first `c` and what stands after it; nothing if `c` does not occur. -/
def cutFirst? (c : Char) : List Char → Option (List Char × List Char)
  | [] => none
  | x :: xs =>
    if x = c then some ([], xs)
    else (cutFirst? c xs).map fun p => (x :: p.1, p.2)

/-- The string before the first `c` and the string after it; nothing if `c` does not occur. -/
def cut? (c : Char) (s : String) : Option (String × String) :=
  (cutFirst? c s.toList).map fun p => (String.ofList p.1, String.ofList p.2)

/-- Dropping characters from the front makes no text longer. -/
theorem length_dropWhile_le (p : Char → Bool) (cs : List Char) :
    (cs.dropWhile p).length ≤ cs.length := by
  induction cs with
  | nil => simp
  | cons c cs ih =>
    rw [List.dropWhile_cons]
    split <;> simp only [List.length_cons] <;> omega

/-- What stands behind `head` in a text that begins with it. -/
def behind? : List Char → List Char → Option (List Char)
  | [], cs => some cs
  | _ :: _, [] => none
  | h :: head, c :: cs => if h = c then behind? head cs else none

/-- What is behind `head` makes up the text again with it, and nothing else does. -/
theorem behind?_eq_some_iff {head cs rest : List Char} :
    behind? head cs = some rest ↔ cs = head ++ rest := by
  induction head generalizing cs with
  | nil => simp [behind?]
  | cons h head ih =>
    cases cs with
    | nil => simp [behind?]
    | cons c cs =>
      by_cases hc : h = c
      · simp [behind?, hc, ih]
      · simp [behind?, hc, Ne.symm hc]

/-- The characters before the first `stop` and those behind `closing`, if `closing` begins there. -/
def upTo? (stop : Char) (closing cs : List Char) : Option (List Char × List Char) :=
  (behind? closing (cs.dropWhile (· ≠ stop))).map fun rest => (cs.takeWhile (· ≠ stop), rest)

/-- The characters before `closing`, then `closing` and what is behind it make up the text. -/
theorem eq_append_of_upTo? {stop : Char} {closing cs before rest : List Char}
    (h : upTo? stop closing cs = some (before, rest)) : cs = before ++ closing ++ rest := by
  obtain ⟨r, hr, h⟩ := Option.map_eq_some_iff.mp h
  obtain ⟨rfl, rfl⟩ := Prod.mk.inj h
  rw [List.append_assoc, ← behind?_eq_some_iff.mp hr, List.takeWhile_append_dropWhile]

/-- An empty string stands for an absent one. -/
def filled? (s : String) : Option String :=
  if s = "" then none else some s

/-- The string that is there, unless it is empty. -/
def filled (s : Option String) : Option String :=
  s.bind filled?

/-- The words with one space between neighbours. -/
def spaced (words : List String) : String :=
  " ".intercalate words

end RollMarkup.Text
