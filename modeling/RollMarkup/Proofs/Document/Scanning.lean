import Mathlib
import RollMarkup.Proofs.Document.Enclosed

/-!
# Scanning from a command on

Behind a command that is no plain dice roll and no rule link, the search passes over a text in braces.
So the commands behind the first one of a document are those of the text behind it if and only if none
of them begins within these braces (`scan_behind_iff`). What is in the braces may be a command of its
own, which is not found then (`not_scan_behind`).
-/

namespace RollMarkup

namespace Command

/-- Whether the braces behind a command are passed over. A plain dice roll has them for its label, and
a rule link has nothing to do with them. -/
def skipsBraces : Command → Bool
  | roll r => r.audience.isSome
  | link _ => false
  | _ => true

/-- What the search passes over behind a command. -/
def passed (c : Command) (behind : List Char) : List Char :=
  if c.skipsBraces then (Match.label? behind).elim [] fun p => Match.braced p.1 else []

end Command

namespace Heading

/-- Only a plain dice roll does not pass over the braces behind it. -/
theorem skipsBraces_read {h : Heading} (hh : h ∈ all) (label : Option String) (body : String) :
    (h.read label body).skipsBraces = decide (h ≠ .ofKind .roll) := by
  cases h with
  | rollFor a => rfl
  | ofKind k =>
    cases k with
    | reference => exact absurd hh (by decide)
    | _ => rfl

end Heading

namespace Match

/-- What a match skips can be told by its command and the text behind it. -/
theorem skipped_eq {cs : List Char} {m : Match} (h : atHead? cs = some m) :
    m.skipped = m.command.passed (m.skipped ++ m.rest) := by
  rcases atHead?_cases h with ⟨hd, hh, body, rest, -, rfl⟩ | ⟨body, rest, -, rfl⟩
  · cases hl : label? rest with
    | none =>
      have hpassed : ∀ c : Command, c.passed rest = [] := by
        intro c
        rw [Command.passed, hl]
        split <;> rfl
      simp only [ofParts, hl]
      exact (hpassed _).symm
    | some p =>
      obtain ⟨label, behind⟩ := p
      -- the braces are the label of a plain dice roll, and are skipped behind every other command
      by_cases hr : hd = .ofKind .roll
      · simp only [ofParts, hl, hr, if_true]
        rfl
      · have hskips := Heading.skipsBraces_read hh none (String.ofList (Text.trim body))
        simp only [ofParts, hl, hr, if_false]
        rw [Command.passed, hskips, decide_eq_true hr, if_pos rfl, ← eq_append_of_label? hl, hl]
        rfl
  · rfl

end Match

namespace Occurrence

/-! ### Places in a document -/

/-- The command with `n` more bytes before it. -/
def shift (n : Nat) (o : Occurrence) : Occurrence :=
  { o with start := n + o.start, stop := n + o.stop }

theorem shift_ofMatch (n start : Nat) (m : Match) :
    shift n (ofMatch start m) = ofMatch (n + start) m := by
  simp only [shift, ofMatch, Nat.add_assoc]

/-- The text behind a command of a document. -/
def behind (o : Occurrence) (document : String) : String :=
  String.Pos.Raw.extract document ⟨o.stop⟩ document.rawEndPos

theorem byteLength_eq_utf8Len (cs : List Char) : byteLength cs = String.utf8Len cs := by
  induction cs with
  | nil => rfl
  | cons c cs ih => rw [byteLength, ih, String.utf8Len_cons, Nat.add_comm]

/-- The number of bytes of a string, counted by its characters. -/
theorem byteLength_toList (s : String) : byteLength s.toList = s.utf8ByteSize := by
  rw [byteLength_eq_utf8Len, ← String.utf8ByteSize_ofList, String.ofList_toList]

/-- Texts one behind the other have their bytes together. -/
theorem byteLength_append (cs ds : List Char) :
    byteLength (cs ++ ds) = byteLength cs + byteLength ds := by
  simp only [byteLength_eq_utf8Len, String.utf8Len_append]

theorem byteLength_pos {cs : List Char} (h : cs ≠ []) : 0 < byteLength cs := by
  cases cs with
  | nil => exact absurd rfl h
  | cons c cs => exact Nat.lt_of_lt_of_le c.utf8Size_pos (Nat.le_add_right _ _)

theorem eq_nil_of_byteLength {cs : List Char} (h : byteLength cs = 0) : cs = [] := by
  by_contra hne
  exact absurd h (Nat.ne_of_gt (byteLength_pos hne))

/-- The text behind a command is what is left when all before its end is taken away. -/
theorem behind_eq {o : Occurrence} {document : String} {before rest : List Char}
    (hdocument : document.toList = before ++ rest) (hstop : o.stop = byteLength before) :
    o.behind document = String.ofList rest := by
  have hwhole : document = String.ofList (before ++ rest ++ []) := by
    rw [List.append_nil, ← hdocument, String.ofList_toList]
  have hend : document.rawEndPos = ⟨String.utf8Len before + String.utf8Len rest⟩ := by
    rw [hwhole, String.rawEndPos_ofList, List.append_nil, String.utf8Len_append]
  rw [behind, hstop, byteLength_eq_utf8Len, hend, hwhole]
  exact String.extract_of_valid before rest []

/-! ### The search -/

/-- What stands in front of a text only shifts the places of its commands. -/
theorem scanChars_shift (n start : Nat) (cs : List Char) :
    scanChars (n + start) cs = (scanChars start cs).map (shift n) := by
  induction start, cs using scanChars.induct with
  | case1 start => simp only [scanChars, List.map_nil]
  | case2 start c cs h ih => rw [scanChars_of_none h, scanChars_of_none h, ← ih, Nat.add_assoc]
  | case3 start c cs m h ih =>
    rw [scanChars_of_some h, scanChars_of_some h, List.map_cons, shift_ofMatch, ← ih]
    simp only [Nat.add_assoc]

/-- No command begins before the place where the search begins. -/
theorem le_start_of_mem {start : Nat} {cs : List Char} :
    ∀ p ∈ scanChars start cs, start ≤ p.start := by
  induction start, cs using scanChars.induct with
  | case1 start => simp only [scanChars, List.not_mem_nil, false_implies, implies_true]
  | case2 start c cs h ih =>
    rw [scanChars_of_none h]
    exact fun p hp => Nat.le_of_add_right_le (ih p hp)
  | case3 start c cs m h ih =>
    rw [scanChars_of_some h]
    intro p hp
    rcases List.mem_cons.mp hp with rfl | hp
    · exact Nat.le_refl start
    · exact Nat.le_of_add_right_le (Nat.le_of_add_right_le (ih p hp))

/-- Whether no command begins within a text that stands in front of another one. -/
def IsQuiet : List Char → List Char → Prop
  | [], _ => True
  | c :: cs, behind => Match.atHead? (c :: (cs ++ behind)) = none ∧ IsQuiet cs behind

variable {before behind : List Char}

/-- A quiet text holds back nothing of what is behind it. -/
theorem scanChars_append (h : IsQuiet before behind) (start : Nat) :
    scanChars start (before ++ behind) = scanChars (start + byteLength before) behind := by
  induction before generalizing start with
  | nil => rfl
  | cons c cs ih =>
    rw [List.cons_append, scanChars_of_none h.1, ih h.2, byteLength, Nat.add_assoc]

/-- If all commands that are found from a text on begin behind it, it is quiet. -/
theorem isQuiet_of_le {start : Nat}
    (h : ∀ p ∈ scanChars start (before ++ behind), start + byteLength before ≤ p.start) :
    IsQuiet before behind := by
  induction before generalizing start with
  | nil => trivial
  | cons c cs ih =>
    rw [List.cons_append] at h
    cases hm : Match.atHead? (c :: (cs ++ behind)) with
    | none =>
      rw [scanChars_of_none hm, byteLength, ← Nat.add_assoc] at h
      exact ⟨hm, ih h⟩
    | some m =>
      -- a command at the head begins before the end of the head
      rw [scanChars_of_some hm] at h
      have hle : start + byteLength (c :: cs) ≤ start := h (ofMatch start m) List.mem_cons_self
      have hpos := c.utf8Size_pos
      rw [byteLength] at hle
      omega

/-- A text is quiet if and only if all commands that are found from it on begin behind it. -/
theorem isQuiet_iff (start : Nat) :
    IsQuiet before behind ↔
      ∀ p ∈ scanChars start (before ++ behind), start + byteLength before ≤ p.start := by
  constructor
  · intro h p hp
    rw [scanChars_append h] at hp
    exact le_start_of_mem p hp
  · exact isQuiet_of_le

/-- A text can be left out of the search if and only if it is quiet. -/
theorem scanChars_append_iff (start : Nat) :
    scanChars (start + byteLength before) behind = scanChars start (before ++ behind) ↔
      IsQuiet before behind := by
  constructor
  · intro h
    rw [isQuiet_iff start, ← h]
    exact le_start_of_mem
  · exact fun h => (scanChars_append h start).symm

/-- The first command that is found is a match, and the search goes on behind what it skips. -/
theorem scanChars_eq_cons {start : Nat} {cs : List Char} {o : Occurrence} {os : List Occurrence}
    (h : scanChars start cs = o :: os) :
    ∃ before m, Match.atHead? (m.text ++ m.skipped ++ m.rest) = some m ∧
      cs = before ++ (m.text ++ m.skipped ++ m.rest) ∧
        o = ofMatch (start + byteLength before) m ∧
          os = scanChars (o.stop + byteLength m.skipped) m.rest := by
  induction start, cs using scanChars.induct with
  | case1 start =>
    rw [scanChars] at h
    cases h
  | case2 start c cs hnone ih =>
    rw [scanChars_of_none hnone] at h
    obtain ⟨before, m, hm, rfl, ho, hos⟩ := ih h
    refine ⟨c :: before, m, hm, rfl, ?_, hos⟩
    rw [ho, byteLength, Nat.add_assoc]
  | case3 start c cs m hm ih =>
    rw [scanChars_of_some hm] at h
    obtain ⟨rfl, rfl⟩ := List.cons.inj h
    have hcs := Match.atHead?_append hm
    refine ⟨[], m, ?_, hcs.symm, rfl, rfl⟩
    rw [hcs]
    exact hm

/-- The commands behind the first one of a document are those of the text behind it, if and only if
none of these begins within what the search passes over. -/
theorem scan_behind_iff {document : String} {o : Occurrence} {os : List Occurrence}
    (h : scan document = o :: os) :
    os = (scan (o.behind document)).map (shift o.stop) ↔
      ∀ p ∈ scan (o.behind document),
        byteLength (o.command.passed (o.behind document).toList) ≤ p.start := by
  obtain ⟨before, m, hm, hdocument, ho, hos⟩ := scanChars_eq_cons h
  have hstop : o.stop = byteLength (before ++ m.text) := by
    rw [ho, byteLength_append]
    exact congrArg (· + byteLength m.text) (Nat.zero_add _)
  have hcommand : o.command = m.command := by rw [ho]; rfl
  have hbehind : o.behind document = String.ofList (m.skipped ++ m.rest) :=
    behind_eq (by rw [hdocument]; simp only [List.append_assoc]) hstop
  -- both searches run over the same characters, but for what the match skips
  have hscan : (scan (o.behind document)).map (shift o.stop) =
      scanChars o.stop (m.skipped ++ m.rest) := by
    rw [scan, ← scanChars_shift, hbehind, String.toList_ofList, Nat.add_zero]
  have hpassed : o.command.passed (o.behind document).toList = m.skipped := by
    rw [hcommand, hbehind, String.toList_ofList, ← Match.skipped_eq hm]
  rw [hscan, hpassed, hos, scanChars_append_iff, isQuiet_iff 0, scan, hbehind, String.toList_ofList,
    Nat.zero_add]

/-- A label that holds no command may be passed over. -/
theorem scan_behind_dodge :
    ∃ o os, scan "[[/save dex]]\x7bDodge\x7d or &Reference[prone]" = o :: os ∧
      (∀ p ∈ scan (o.behind "[[/save dex]]\x7bDodge\x7d or &Reference[prone]"),
        byteLength (o.command.passed
          (o.behind "[[/save dex]]\x7bDodge\x7d or &Reference[prone]").toList) ≤ p.start) ∧
      os = (scan (o.behind "[[/save dex]]\x7bDodge\x7d or &Reference[prone]")).map
        (shift o.stop) := by
  let document := "[[/save dex]]\x7bDodge\x7d or &Reference[prone]"
  let o : Occurrence :=
    { kind := .save
      command := .save { abilities := some (.one "dexterity") }
      text := "[[/save dex]]"
      start := 0
      stop := 13 }
  let p : Occurrence :=
    { kind := .reference
      command := .link { rule := some "prone" }
      text := "&Reference[prone]"
      start := 24
      stop := 41 }
  have hscan : scan document = [o, p] := by decide +kernel
  have hbehind : o.behind document = "\x7bDodge\x7d or &Reference[prone]" := by decide +kernel
  have hquiet : ∀ p ∈ scan (o.behind document),
      byteLength (o.command.passed (o.behind document).toList) ≤ p.start := by
    rw [hbehind]
    decide +kernel
  exact ⟨o, [p], hscan, hquiet, (scan_behind_iff hscan).mpr hquiet⟩

/-- A saving throw in the braces behind a check is not found, though it is found in the text behind the
check. -/
theorem not_scan_behind :
    ¬ ∀ (document : String) (o : Occurrence) (os : List Occurrence), scan document = o :: os →
      os = (scan (o.behind document)).map (shift o.stop) := by
  intro claim
  let document := "[[/check dex]]\x7b[[/save con]]\x7d"
  let o : Occurrence :=
    { kind := .check
      command := .check { ability := some "dexterity" }
      text := "[[/check dex]]"
      start := 0
      stop := 14 }
  have hscan : scan document = [o] := by decide +kernel
  have hbehind : o.behind document = "\x7b[[/save con]]\x7d" := by decide +kernel
  have hnone := claim document o [] hscan
  have hone : (scan (o.behind document)).length = 1 := by
    rw [hbehind]
    decide +kernel
  have hlength := congrArg List.length hnone
  rw [List.length_map, hone] at hlength
  exact absurd hlength (by decide)

end Occurrence

end RollMarkup
