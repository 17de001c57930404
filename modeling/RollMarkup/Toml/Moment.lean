import RollMarkup.Text.Cut

/-!
# Dates and times in TOML

A date, a time of day, or both, and with both the distance to universal time. Nothing of them is
kept: each reader gives back the text behind what it has read.
-/

namespace RollMarkup.Toml

/-- The number that has exactly so many digits, and the text behind it. -/
def fixedDigits? (count : Nat) (cs : List Char) : Option (Nat × List Char) :=
  let ds := cs.take count
  if ds.length = count ∧ ds.all Char.isDigit then some (Nat.ofDigitChars 10 ds 0, cs.drop count)
  else none

/-- The number of days in a month. -/
def daysIn (year month : Nat) : Nat :=
  if month = 2 then
    if year % 4 = 0 ∧ year % 100 ≠ 0 ∨ year % 400 = 0 then 29 else 28
  else if month ∈ [4, 6, 9, 11] then 30
  else 31

/-- The text behind a date. -/
def date? (cs : List Char) : Option (List Char) := do
  let year ← fixedDigits? 4 cs
  let month ← fixedDigits? 2 (← Text.behind? ['-'] year.2)
  let day ← fixedDigits? 2 (← Text.behind? ['-'] month.2)
  if 1 ≤ month.1 ∧ month.1 ≤ 12 ∧ 1 ≤ day.1 ∧ day.1 ≤ daysIn year.1 month.1 then some day.2
  else none

/-- The text behind an hour and a minute. -/
def minute? (cs : List Char) : Option (List Char) := do
  let hour ← fixedDigits? 2 cs
  let minute ← fixedDigits? 2 (← Text.behind? [':'] hour.2)
  if hour.1 < 24 ∧ minute.1 < 60 then some minute.2 else none

/-- The text behind a time of day. A minute may have a leap second, and a second a fraction. -/
def time? (cs : List Char) : Option (List Char) := do
  let second ← fixedDigits? 2 (← Text.behind? [':'] (← minute? cs))
  if 60 < second.1 then none
  else
    match second.2 with
    | '.' :: c :: rest =>
      if c.isDigit then some (rest.dropWhile Char.isDigit) else some ('.' :: c :: rest)
    | rest => some rest

/-- The text behind a distance to universal time, if there is one. -/
def dropOffset (cs : List Char) : List Char :=
  match cs with
  | 'Z' :: rest | 'z' :: rest => rest
  | '+' :: rest | '-' :: rest => (minute? rest).getD cs
  | _ => cs

/-- The text behind a date, a time, or both with a space or a letter between them. -/
def moment? (cs : List Char) : Option (List Char) :=
  match date? cs with
  | none => time? cs
  | some rest =>
    match rest with
    | 'T' :: after | 't' :: after | ' ' :: after =>
      some (((time? after).map dropOffset).getD rest)
    | _ => some rest

end RollMarkup.Toml
