import Mathlib
import RollMarkup.Document.Finding
import RollMarkup.Proofs.Document.Excerpt

/-!
# The places of commands in a document

Every command that is found stands where it is said to stand (`areSound_scan`): its text is the part of
the document between its two bytes, both of them between characters, and begins with one of the headings.
The commands come in the order of the document and do not overlap.

A search takes a label along behind every command, and the place of a command that does not own the label
is reckoned back from it (`Capture`). That is done here with differences and slices that may fail, to show
that none of them does.
-/

namespace RollMarkup

namespace Text

/-- The text between two bytes of a string; nothing unless both stand between characters and the first
one is not behind the second. -/
def slice? (s : String) (start stop : Nat) : Option String :=
  if (⟨start⟩ : String.Pos.Raw).isValid s ∧ (⟨stop⟩ : String.Pos.Raw).isValid s ∧ start ≤ stop then
    some (String.Pos.Raw.extract s ⟨start⟩ ⟨stop⟩)
  else none

end Text

/-- The line on which a byte of a document stands, as the number of lines that end before it; nothing if
the byte is inside a character or behind the end. -/
def lineNumber? (document : String) (offset : Nat) : Option Nat :=
  (Text.slice? document 0 offset).map fun before => before.toList.count '\n' + 1

/-- What a search takes for a command in double brackets: a heading, a body, and a label if one stands
behind the brackets. -/
structure Capture where
  heading : Heading
  body : List Char
  label : Option (List Char)

namespace Capture

open Occurrence (byteLength)

/-- The characters up to the closing brackets. -/
def brackets (c : Capture) : List Char :=
  Match.enclose c.heading c.body

/-- All characters that the search takes. -/
def chars (c : Capture) : List Char :=
  c.brackets ++ (c.label.map Match.braced).getD []

/-- Whether a label behind the command belongs to it. -/
def ownsLabel (c : Capture) : Bool :=
  c.heading = .ofKind .roll

/-- The byte behind the brace that opens the label, for a capture that begins at `start`. -/
def labelStart? (c : Capture) (start : Nat) : Option Nat :=
  c.label.map fun _ => start + byteLength c.brackets + 1

/-- The byte behind the command: the one of the brace in front of a label that it does not own. -/
def stop? (c : Capture) (start : Nat) : Option Nat :=
  match c.labelStart? start with
  | some n => if c.ownsLabel then some (start + byteLength c.chars) else Nat.psub n 1
  | none => some (start + byteLength c.chars)

/-- The command, with its text cut from the front of what the search takes. -/
def occurrence? (c : Capture) (start : Nat) : Option Occurrence := do
  let stop ← c.stop? start
  let text ← Text.slice? (String.ofList c.chars) 0 (← Nat.psub stop start)
  let label := if c.ownsLabel then c.label.map String.ofList else none
  return {
    kind := c.heading.kind
    command := c.heading.read label (String.ofList (Text.trim c.body))
    text, start, stop }

/-- A capture as the search makes it behind the first `start` bytes of a document. A label that stands
behind the brackets is taken along, whatever the heading is. -/
structure StandsAt (c : Capture) (document : String) (start : Nat) : Prop where
  heading : c.heading ∈ Heading.all
  body : ']' ∉ c.body
  label : ∀ l ∈ c.label, '\x7d' ∉ l
  place : ∃ before rest, document.toList = before ++ (c.brackets ++ rest) ∧
    byteLength before = start ∧ c.label = (Match.label? rest).map Prod.fst

end Capture

namespace Occurrence

/-- The form of a command: a rule link, or a command in double brackets under one of the headings. Only
a plain dice roll has a label. -/
def HasForm (hs : List Heading) (o : Occurrence) : Prop :=
  (o.kind = .reference ∧ ∃ body : String, ']' ∉ body.toList ∧ o.text = "&Reference[" ++ body ++ "]") ∨
    ∃ h ∈ hs, o.kind = h.kind ∧ ∃ body : String, ']' ∉ body.toList ∧
      (o.text = "[[/" ++ h.keyword ++ body ++ "]]" ∨
        h = .ofKind .roll ∧ ∃ label : String, '\x7d' ∉ label.toList ∧
          o.text = "[[/" ++ h.keyword ++ body ++ "]]" ++ ("\x7b" ++ label ++ "\x7d"))

/-- A command that stands in a document where it says, in its proper form. Its place can be reckoned from
what the search takes, and its line from its place. -/
structure StandsIn (hs : List Heading) (document : String) (o : Occurrence) : Prop where
  start : (⟨o.start⟩ : String.Pos.Raw).IsValid document
  stop : (⟨o.stop⟩ : String.Pos.Raw).IsValid document
  lt : o.start < o.stop
  le : o.stop ≤ document.utf8ByteSize
  text : String.Pos.Raw.extract document ⟨o.start⟩ ⟨o.stop⟩ = o.text
  form : o.HasForm hs
  capture : o.kind = .reference ∨
    ∃ c : Capture, c.StandsAt document o.start ∧ c.occurrence? o.start = some o
  line : lineNumber? document o.start = some (lineNumber document o.start)

/-- The commands of a document, one behind the other. -/
structure AreSound (hs : List Heading) (document : String) (os : List Occurrence) : Prop where
  stand : ∀ o ∈ os, o.StandsIn hs document
  apart : os.Pairwise fun o p => o.stop ≤ p.start
  lines : os.Pairwise fun o p => lineNumber document o.start ≤ lineNumber document p.start

/-! ### Bytes and characters -/

theorem isValid_byteLength (before rest : List Char) :
    (⟨byteLength before⟩ : String.Pos.Raw).IsValid (String.ofList (before ++ rest)) := by
  rw [String.Pos.Raw.isValid_iff_exists_append]
  refine ⟨String.ofList before, String.ofList rest, String.ofList_append, ?_⟩
  rw [String.rawEndPos_ofList, byteLength_eq_utf8Len]

/-- What stands between two boundaries is extracted by the bytes before them. -/
theorem extract_byteLength (before middle rest : List Char) :
    String.Pos.Raw.extract (String.ofList (before ++ middle ++ rest)) ⟨byteLength before⟩
      ⟨byteLength (before ++ middle)⟩ = String.ofList middle := by
  rw [byteLength_append, byteLength_eq_utf8Len, byteLength_eq_utf8Len]
  exact String.extract_of_valid before middle rest

/-- The front of a text can be cut off behind the last byte of a character. -/
theorem slice?_zero (before rest : List Char) :
    Text.slice? (String.ofList (before ++ rest)) 0 (byteLength before) =
      some (String.ofList before) := by
  have hstart := String.Pos.Raw.isValid_eq_true_iff.mpr (isValid_byteLength [] (before ++ rest))
  have hstop := String.Pos.Raw.isValid_eq_true_iff.mpr (isValid_byteLength before rest)
  have hbefore := extract_byteLength [] before rest
  rw [Text.slice?, if_pos ⟨hstart, hstop, Nat.zero_le _⟩]
  exact congrArg some hbefore

/-! ### Lines -/

/-- The lines that end within the characters before a byte. -/
theorem lineEnds_byteLength (before rest : List Char) :
    lineEnds (byteLength before) (before ++ rest) = before.count '\n' := by
  induction before with
  | nil =>
    cases rest with
    | nil => rfl
    | cons c cs => rw [byteLength, List.nil_append, lineEnds, if_pos rfl, List.count_nil]
  | cons c cs ih =>
    have hpos := c.utf8Size_pos
    have hne : c.utf8Size + byteLength cs ≠ 0 := by omega
    rw [byteLength, List.cons_append, lineEnds, if_neg hne, Nat.add_sub_cancel_left, ih,
      List.count_cons]
    simp only [beq_iff_eq]

/-- At the boundary of a character there is a line number. -/
theorem lineNumber?_byteLength (before rest : List Char) :
    lineNumber? (String.ofList (before ++ rest)) (byteLength before) =
      some (lineNumber (String.ofList (before ++ rest)) (byteLength before)) := by
  rw [lineNumber?, slice?_zero, Option.map_some, lineNumber, String.toList_ofList,
    String.toList_ofList, lineEnds_byteLength]

/-- Further on in a document no fewer lines have ended. -/
theorem lineEnds_mono {m n : Nat} (h : m ≤ n) (cs : List Char) : lineEnds m cs ≤ lineEnds n cs := by
  induction cs generalizing m n with
  | nil => exact Nat.le_refl 0
  | cons c cs ih =>
    rw [lineEnds, lineEnds]
    by_cases hm : m = 0
    · rw [if_pos hm]
      exact Nat.zero_le _
    · have hn : n ≠ 0 := by omega
      rw [if_neg hm, if_neg hn]
      exact Nat.add_le_add_right (ih (Nat.sub_le_sub_right h _)) _

/-- Line numbers do not go down in a document. -/
theorem lineNumber_mono {m n : Nat} (h : m ≤ n) (document : String) :
    lineNumber document m ≤ lineNumber document n :=
  Nat.succ_le_succ (lineEnds_mono h document.toList)

/-! ### Captures -/

/-- A capture gives its command, if the end of the command is where its text ends. -/
theorem occurrence?_eq {c : Capture} {m : Match} {start : Nat}
    (hchars : c.chars = m.text ++ m.skipped)
    (hstop : c.stop? start = some (start + byteLength m.text)) (hkind : c.heading.kind = m.kind)
    (hcommand : c.heading.read (if c.ownsLabel then c.label.map String.ofList else none)
      (String.ofList (Text.trim c.body)) = m.command) :
    c.occurrence? start = some (ofMatch start m) := by
  have hlength : Nat.psub (start + byteLength m.text) start = some (byteLength m.text) :=
    Nat.psub_eq_some.mpr (Nat.add_comm _ _)
  have htext := slice?_zero m.text m.skipped
  rw [← hchars] at htext
  simp only [Capture.occurrence?, hstop, hlength, htext, hkind, hcommand, Option.bind_eq_bind,
    Option.bind_some, Option.pure_def]
  rfl

/-- A match in double brackets comes from the capture that the search makes of it. -/
theorem capture_ofParts (h : Heading) (body rest : List Char) (start : Nat) :
    Capture.occurrence? ⟨h, body, (Match.label? rest).map Prod.fst⟩ start =
      some (ofMatch start (Match.ofParts h body rest)) := by
  cases hl : Match.label? rest with
  | none =>
    rw [Match.ofParts_unlabelled hl, Option.map_none]
    refine occurrence?_eq rfl ?_ rfl ?_
    · simp only [Capture.stop?, Capture.labelStart?, Option.map_none, Capture.chars,
        Option.getD_none, List.append_nil]
      rfl
    · rw [Option.map_none, ite_self]
  | some p =>
    obtain ⟨label, behind⟩ := p
    rw [Option.map_some]
    -- a label belongs to a roll, and behind any other command it is skipped
    by_cases hr : h = .ofKind .roll
    · have howns : Capture.ownsLabel ⟨h, body, some label⟩ = true := decide_eq_true hr
      have hchars : Capture.chars ⟨h, body, some label⟩ =
          Match.enclose h body ++ Match.braced label ++ [] := by
        rw [List.append_nil]
        rfl
      rw [Match.ofParts_roll hl hr]
      refine occurrence?_eq hchars ?_ rfl ?_
      · simp only [Capture.stop?, Capture.labelStart?, Option.map_some, howns, if_true]
        rw [hchars, List.append_nil]
      · rw [howns, if_pos rfl, Option.map_some]
    · have howns : Capture.ownsLabel ⟨h, body, some label⟩ = false := decide_eq_false hr
      rw [Match.ofParts_skipped hl hr]
      refine occurrence?_eq rfl ?_ rfl ?_
      · -- the brace in front of the label is the byte behind the brackets
        simp only [Capture.stop?, Capture.labelStart?, Option.map_some, howns]
        exact Nat.psub_eq_some.mpr rfl
      · rw [howns, if_neg Bool.false_ne_true]

/-! ### Forms -/

theorem ofList_enclose (h : Heading) (body : List Char) :
    String.ofList (Match.enclose h body) = "[[/" ++ h.keyword ++ String.ofList body ++ "]]" := by
  apply String.toList_inj.mp
  simp [Match.enclose, Match.opening]

theorem ofList_braced (label : List Char) :
    String.ofList (Match.braced label) = "\x7b" ++ String.ofList label ++ "\x7d" := by
  apply String.toList_inj.mp
  simp [Match.braced]

theorem ofList_link (body : List Char) :
    String.ofList (Match.linkOpening ++ body ++ [']']) =
      "&Reference[" ++ String.ofList body ++ "]" := by
  have hopening : String.ofList Match.linkOpening = "&Reference[" := String.ofList_toList
  have hclosing : String.ofList [']'] = "]" := rfl
  rw [String.ofList_append, String.ofList_append, hopening, hclosing]

/-- Every match has the form of a command. -/
theorem hasForm_ofMatch {cs : List Char} {m : Match} (hm : Match.atHead? cs = some m) (start : Nat) :
    (ofMatch start m).HasForm Heading.all := by
  rcases Match.atHead?_cases hm with ⟨h, hh, body, rest, closed, rfl⟩ | ⟨body, rest, closed, rfl⟩
  · have hbody : ']' ∉ (String.ofList body).toList := by rwa [String.toList_ofList]
    have htext := ofList_enclose h body
    right
    cases hl : Match.label? rest with
    | none =>
      rw [Match.ofParts_unlabelled hl]
      exact ⟨h, hh, rfl, String.ofList body, hbody, .inl htext⟩
    | some p =>
      obtain ⟨label, behind⟩ := p
      by_cases hr : h = .ofKind .roll
      · have hlabel : '\x7d' ∉ (String.ofList label).toList := by
          rw [String.toList_ofList]
          exact Match.not_mem_of_label? hl
        rw [Match.ofParts_roll hl hr]
        refine ⟨h, hh, rfl, String.ofList body, hbody,
          .inr ⟨hr, String.ofList label, hlabel, ?_⟩⟩
        rw [← htext, ← ofList_braced, ← String.ofList_append]
        rfl
      · rw [Match.ofParts_skipped hl hr]
        exact ⟨h, hh, rfl, String.ofList body, hbody, .inl htext⟩
  · left
    exact ⟨rfl, String.ofList body, by rwa [String.toList_ofList], ofList_link body⟩

/-! ### The commands of a document -/

/-- A match that is found behind some characters of a document stands where it was found. -/
theorem standsIn_ofMatch {m : Match} (before : List Char)
    (hm : Match.atHead? (m.text ++ m.skipped ++ m.rest) = some m) :
    (ofMatch (byteLength before) m).StandsIn Heading.all
      (String.ofList (before ++ (m.text ++ m.skipped ++ m.rest))) := by
  have hstop : byteLength before + byteLength m.text = byteLength (before ++ m.text) :=
    (byteLength_append _ _).symm
  have htext : before ++ (m.text ++ m.skipped ++ m.rest) =
      before ++ m.text ++ (m.skipped ++ m.rest) := by
    simp only [List.append_assoc]
  refine
    { start := isValid_byteLength _ _
      stop := ?_
      lt := Nat.lt_add_of_pos_right (byteLength_pos (Match.text_ne_nil hm))
      le := ?_
      text := ?_
      form := hasForm_ofMatch hm _
      capture := ?_
      line := lineNumber?_byteLength _ _ }
  · rw [ofMatch, hstop, htext]
    exact isValid_byteLength _ _
  · rw [ofMatch, hstop, htext, String.utf8ByteSize_ofList, ← byteLength_eq_utf8Len,
      byteLength_append _ (_ ++ _)]
    exact Nat.le_add_right _ _
  · rw [ofMatch, hstop, htext]
    exact extract_byteLength before m.text _
  · rcases Match.atHead?_cases hm with ⟨h, hh, body, rest, closed, rfl⟩ | ⟨body, rest, -, rfl⟩
    · refine .inr ⟨⟨h, body, (Match.label? rest).map Prod.fst⟩, ?_, capture_ofParts h body rest _⟩
      refine { heading := hh, body := closed, label := ?_, place := ⟨before, rest, ?_, rfl, rfl⟩ }
      · intro l hl
        obtain ⟨p, hp, rfl⟩ := Option.map_eq_some_iff.mp hl
        exact Match.not_mem_of_label? hp
      · rw [String.toList_ofList, Match.ofParts_append]
        rfl
    · exact .inl rfl

/-- Each command of a document ends before the next ones begin. -/
theorem pairwise_scanChars (start : Nat) (cs : List Char) :
    (scanChars start cs).Pairwise fun o p => o.stop ≤ p.start := by
  induction start, cs using scanChars.induct with
  | case1 start =>
    rw [scanChars]
    exact List.Pairwise.nil
  | case2 start c cs h ih => rwa [scanChars_of_none h]
  | case3 start c cs m h ih =>
    rw [scanChars_of_some h]
    refine List.pairwise_cons.mpr ⟨fun p hp => ?_, ih⟩
    exact Nat.le_of_add_right_le (le_start_of_mem p hp)

/-- The commands of a document stand where they are said to stand, one behind the other. -/
theorem areSound_scan (document : String) :
    AreSound Heading.all document (scan document) ∧
      ∀ h : House, ∀ f ∈ h.findings document,
        lineNumber? document f.start = some (lineNumber document f.start) := by
  have hstand : ∀ o ∈ scan document, o.StandsIn Heading.all document := by
    intro o ho
    obtain ⟨before, m, hm, hdocument, rfl⟩ := exists_match_of_mem ho
    rw [Nat.zero_add, ← String.ofList_toList (s := document), hdocument]
    exact standsIn_ofMatch before hm
  have hapart := pairwise_scanChars 0 document.toList
  refine ⟨⟨hstand, hapart, ?_⟩, fun h f hf => ?_⟩
  · refine List.Pairwise.imp_of_mem (fun {o p} ho hp hle => ?_) hapart
    exact lineNumber_mono (Nat.le_trans (Nat.le_of_lt (hstand o ho).lt) hle) document
  · -- a finding begins where its command begins
    obtain ⟨o, ho, hfo⟩ := List.mem_flatMap.mp hf
    obtain ⟨c, -, rfl⟩ := List.mem_map.mp hfo
    exact (hstand o ho).line

/-- A label that a check does not own, behind characters of two bytes and on the second line. -/
theorem areSound_scan_unowned :
    ∃ o, o ∈ scan "né\n[[/check dex]]\x7bü\x7d [[/roll 1d4]]\x7bü\x7d" ∧
      o.start = 4 ∧ o.stop = 18 ∧
      o.StandsIn Heading.all "né\n[[/check dex]]\x7bü\x7d [[/roll 1d4]]\x7bü\x7d" ∧
      lineNumber? "né\n[[/check dex]]\x7bü\x7d [[/roll 1d4]]\x7bü\x7d" o.start = some 2 := by
  let document := "né\n[[/check dex]]\x7bü\x7d [[/roll 1d4]]\x7bü\x7d"
  let o : Occurrence :=
    { kind := .check
      command := .check { ability := some "dexterity" }
      text := "[[/check dex]]"
      start := 4
      stop := 18 }
  have ho : o ∈ scan document := by decide +kernel
  have hstands := (areSound_scan document).1.stand o ho
  refine ⟨o, ho, rfl, rfl, hstands, ?_⟩
  rw [hstands.line]
  decide +kernel

/-! ### The headings -/

/-- The headings are those of every kind but the rule links. -/
theorem mem_all_iff {h : Heading} : h ∈ Heading.all ↔ h.kind ≠ .reference := by
  cases h with
  | ofKind k => cases k <;> decide
  | rollFor a => cases a <;> decide

/-- A command without a body has the form of a command under its own heading only. -/
theorem mem_of_hasForm {hs : List Heading} {o : Occurrence} {h : Heading} (hh : h ∈ Heading.all)
    (hkind : o.kind = h.kind) (htext : o.text = "[[/" ++ h.keyword ++ "]]") (ho : o.HasForm hs) :
    h ∈ hs := by
  rcases ho with ⟨hlink, -⟩ | ⟨g, hg, hgkind, body, -, hform⟩
  · exact absurd (hkind.symm.trans hlink) (mem_all_iff.mp hh)
  · have hgall : g ∈ Heading.all := by
      rw [mem_all_iff, ← hgkind, hkind]
      exact mem_all_iff.mp hh
    obtain ⟨rest, hrest⟩ : ∃ rest, o.text = "[[/" ++ g.keyword ++ rest := by
      rcases hform with hform | ⟨-, label, -, hform⟩
      · exact ⟨body ++ "]]", by rw [hform, String.append_assoc]⟩
      · exact ⟨body ++ "]]" ++ ("\x7b" ++ label ++ "\x7d"), by
          rw [hform]
          simp only [String.append_assoc]⟩
    -- the same keyword is read from the same text
    rw [htext, String.append_assoc, String.append_assoc, String.append_right_inj] at hrest
    have hread := Heading.ofChars?_keyword hh "]]".toList
    rw [← String.toList_append, hrest, String.toList_append, Heading.ofChars?_keyword hgall] at hread
    obtain ⟨rfl, -⟩ := Prod.mk.inj (Option.some.inj hread)
    exact hg

/-- There are fourteen headings: of thirteen, one is wanting for this document. -/
theorem not_areSound_thirteen :
    let document := "[[/check]][[/skill]][[/tool]][[/attack]][[/damage]][[/heal]][[/roll]]" ++
      "[[/publicroll]][[/gmroll]][[/blindroll]][[/selfroll]][[/save]][[/concentration]][[/item]]"
    ¬ ∃ hs : List Heading, hs.length = 13 ∧ AreSound hs document (scan document) := by
  rintro document ⟨hs, hlength, hsound⟩
  have hscan : (scan document).map (fun o => (o.kind, o.text)) =
      Heading.all.map fun h => (h.kind, "[[/" ++ h.keyword ++ "]]") := by decide +kernel
  have hsub : Heading.all ⊆ hs := by
    intro h hh
    have hmem := List.mem_map_of_mem (f := fun h => (h.kind, "[[/" ++ h.keyword ++ "]]")) hh
    rw [← hscan] at hmem
    obtain ⟨o, ho, heq⟩ := List.mem_map.mp hmem
    obtain ⟨hkind, htext⟩ := Prod.mk.inj heq
    exact mem_of_hasForm hh hkind htext (hsound.stand o ho).form
  have hnodup : Heading.all.Nodup := by decide
  have hle := (hnodup.subperm hsub).length_le
  rw [hlength] at hle
  exact absurd hle (by decide)

end Occurrence

end RollMarkup
