import Mathlib
import RollMarkup.Proofs.Document.Excerpt

/-!
# Documents put together from commands and prose

The findings in a document that is made of commands with prose between them are those in the commands,
one after the other, each at the place of its command (`findings_assembled`). The prose may hold closing
brackets, braces and quotes; only what opens a command may not be in it, and no brace may stand where it
would begin a label.
-/

namespace RollMarkup

namespace Finding

/-- The finding with `n` more bytes before it. -/
def shift (n : Nat) (f : Finding) : Finding :=
  { f with start := n + f.start, stop := n + f.stop }

end Finding

/-- A text of which no part begins a command. -/
structure IsProse (prose : String) : Prop where
  bracket : '[' ∉ prose.toList
  ampersand : '&' ∉ prose.toList

/-- A text that is one command, from its first byte to its last. -/
def IsCommand (text : String) : Prop :=
  ∃ o, Occurrence.first? text = some o ∧ o.start = 0 ∧ o.stop = text.utf8ByteSize

instance (text : String) : Decidable (IsCommand text) :=
  decidable_of_iff
    ((Occurrence.first? text).any fun o => o.start = 0 ∧ o.stop = text.utf8ByteSize)
    (by simp only [IsCommand, Option.any_eq_true, decide_eq_true_eq])

/-- A command and the prose behind it. -/
structure Passage where
  command : String
  prose : String

namespace Passage

/-- The text of a passage. -/
def text (p : Passage) : String :=
  p.command ++ p.prose

/-- A passage whose prose neither begins a command nor is a label. -/
structure IsPlain (p : Passage) : Prop where
  command : IsCommand p.command
  prose : IsProse p.prose
  unlabelled : p.prose.toList.head? ≠ some '\x7b'

/-- A document that begins with prose and goes on with passages. -/
def assemble (prose : String) (ps : List Passage) : String :=
  prose ++ String.join (ps.map text)

/-- The findings in the commands of passages that stand one behind the other after `start` bytes. -/
def findings (h : House) (start : Nat) : List Passage → List Finding
  | [] => []
  | p :: ps =>
    (h.findings p.command).map (Finding.shift start) ++
      findings h (start + p.command.utf8ByteSize + p.prose.utf8ByteSize) ps

end Passage

namespace Match

/-- A command begins with a bracket or an ampersand. -/
theorem head?_text {cs : List Char} {m : Match} (h : atHead? cs = some m) :
    m.text.head? = some '[' ∨ m.text.head? = some '&' := by
  rcases atHead?_cases h with ⟨hd, -, body, rest, -, rfl⟩ | ⟨body, rest, -, rfl⟩
  · left
    unfold ofParts
    simp only
    split
    · rfl
    · split <;> rfl
  · right
    rfl

/-- No command begins with anything but an opening bracket or an ampersand. -/
theorem atHead?_eq_none {c : Char} (hbracket : c ≠ '[') (hampersand : c ≠ '&') (cs : List Char) :
    atHead? (c :: cs) = none := by
  cases h : atHead? (c :: cs) with
  | none => rfl
  | some m =>
    have happend := congrArg List.head? (atHead?_append h)
    rw [List.append_assoc, List.head?_append] at happend
    rcases head?_text h with hhead | hhead <;> rw [hhead] at happend
    · exact absurd (Option.some.inj happend).symm hbracket
    · exact absurd (Option.some.inj happend).symm hampersand

end Match

namespace Occurrence

variable {h : House}

/-- A text that is one command is the text of a match at its head. -/
theorem exists_match_of_isCommand {text : String} (ht : IsCommand text) :
    ∃ m, Match.atHead? text.toList = some m ∧ m.text = text.toList := by
  obtain ⟨o, ho, hstart, hstop⟩ := ht
  have hmem : o ∈ scanChars 0 text.toList := by
    rw [first?, firstChars?_eq_head?] at ho
    exact List.mem_of_mem_head? ho
  obtain ⟨before, m, hm, htext, rfl⟩ := exists_match_of_mem hmem
  -- nothing stands before the match, and nothing is left over behind its text
  simp only [ofMatch] at hstart hstop
  have hbefore : before = [] := eq_nil_of_byteLength (by omega)
  subst hbefore
  rw [List.nil_append] at htext
  have hlength := congrArg byteLength htext
  rw [byteLength_toList, ← hstop, byteLength, byteLength_append, byteLength_append] at hlength
  have hskipped : m.skipped = [] := eq_nil_of_byteLength (by omega)
  have hrest : m.rest = [] := eq_nil_of_byteLength (by omega)
  rw [hskipped, hrest, List.append_nil, List.append_nil] at htext hm
  exact ⟨m, htext ▸ hm, htext.symm⟩

/-- Where neither an opening bracket nor an ampersand stands, no command begins. -/
theorem isQuiet_of_isProse {prose : List Char} (hbracket : '[' ∉ prose) (hampersand : '&' ∉ prose)
    (behind : List Char) : IsQuiet prose behind := by
  induction prose with
  | nil => trivial
  | cons c cs ih =>
    rw [List.mem_cons, not_or] at hbracket hampersand
    exact ⟨Match.atHead?_eq_none (Ne.symm hbracket.1) (Ne.symm hampersand.1) _,
      ih hbracket.2 hampersand.2⟩

/-- Prose is passed over. -/
theorem scanChars_prose {prose : String} (hp : IsProse prose) (start : Nat) (behind : List Char) :
    scanChars start (prose.toList ++ behind) = scanChars (start + prose.utf8ByteSize) behind := by
  rw [scanChars_append (isQuiet_of_isProse hp.bracket hp.ampersand behind), byteLength_toList]

/-- A command has the findings at its place that it has at the start, shifted by that place. -/
theorem findingsAt_ofMatch (h : House) (start : Nat) (m : Match) :
    h.findingsAt (ofMatch start m) = (h.findingsAt (ofMatch 0 m)).map (Finding.shift start) := by
  rw [House.findingsAt, House.findingsAt, List.map_map]
  simp only [Function.comp_def, Finding.shift, ofMatch, Nat.add_zero, Nat.zero_add]
  rfl

/-- A command with no brace behind it has the findings that it has alone, at its place. -/
theorem findings_command {text : String} (ht : IsCommand text) {behind : List Char}
    (hbehind : behind.head? ≠ some '\x7b') (start : Nat) :
    (scanChars start (text.toList ++ behind)).flatMap h.findingsAt =
      (h.findings text).map (Finding.shift start) ++
        (scanChars (start + text.utf8ByteSize) behind).flatMap h.findingsAt := by
  obtain ⟨m, hm, htext⟩ := exists_match_of_isCommand ht
  have hfound := Match.atHead?_text_append hm hbehind
  have halone := Match.atHead?_text hm
  rw [House.findings, scan, ← byteLength_toList, ← htext, scanChars_of_some hfound,
    scanChars_of_atHead? halone rfl, List.flatMap_cons, List.flatMap_singleton]
  exact congrArg (· ++ _) (findingsAt_ofMatch h start m)

end Occurrence

namespace Passage

open Occurrence

/-- Assembled passages stand behind the prose in front of them. -/
theorem toList_assemble (prose : String) (ps : List Passage) :
    (assemble prose ps).toList = prose.toList ++ (assemble "" ps).toList := by
  simp only [assemble, String.toList_append, String.toList_empty, List.nil_append]

theorem toList_assemble_cons (p : Passage) (ps : List Passage) :
    (assemble "" (p :: ps)).toList = p.command.toList ++ (assemble p.prose ps).toList := by
  simp only [assemble, text, List.map_cons, String.join_cons, String.toList_append,
    String.toList_empty, List.nil_append, List.append_assoc]

/-- No label begins behind a command: the prose begins none, nor does the next command. -/
theorem head?_assemble {p : Passage} (hp : p.IsPlain) {ps : List Passage}
    (hps : ∀ q ∈ ps, q.IsPlain) : (assemble p.prose ps).toList.head? ≠ some '\x7b' := by
  rw [toList_assemble, List.head?_append]
  cases hprose : p.prose.toList.head? with
  | some c =>
    rw [← hprose]
    simpa only [hprose, Option.some_or] using hp.unlabelled
  | none =>
    rw [Option.none_or]
    cases ps with
    | nil => simp [assemble]
    | cons q qs =>
      obtain ⟨m, hm, htext⟩ := exists_match_of_isCommand (hps q List.mem_cons_self).command
      rw [toList_assemble_cons, List.head?_append, ← htext]
      rcases Match.head?_text hm with hhead | hhead <;> rw [hhead, Option.some_or] <;> decide

/-- The findings in passages are those in their commands. -/
theorem findings_passages {h : House} {ps : List Passage} (hps : ∀ p ∈ ps, p.IsPlain) (start : Nat) :
    (scanChars start (assemble "" ps).toList).flatMap h.findingsAt = findings h start ps := by
  induction ps generalizing start with
  | nil =>
    have hnil : (assemble "" []).toList = [] := rfl
    rw [hnil, scanChars, List.flatMap_nil, findings]
  | cons p ps ih =>
    obtain ⟨hp, hrest⟩ := List.forall_mem_cons.mp hps
    rw [toList_assemble_cons, findings_command hp.command (head?_assemble hp hrest), toList_assemble,
      scanChars_prose hp.prose, ih hrest, findings]

/-- The findings in a document that is made of prose and commands are those in each command, at the
place where it stands. -/
theorem findings_assembled (h : House) {prose : String} (hprose : IsProse prose) {ps : List Passage}
    (hps : ∀ p ∈ ps, p.IsPlain) :
    h.findings (assemble prose ps) = findings h prose.utf8ByteSize ps := by
  rw [House.findings, scan, toList_assemble, scanChars_prose hprose, findings_passages hps,
    Nat.zero_add]

/-- Two commands stand side by side, and the prose around them holds what would close a command or a
label. -/
theorem findings_assembled_sanity :
    let prose := "«]\x7d "
    let ps : List Passage :=
      [⟨"[[/roll 1d4]]\x7bLuck\x7d", ""⟩, ⟨"[[/check dex]]", " \x7b\"Né\"\x7d "⟩,
        ⟨"[[/skill sanity]]", "]]\x7d"⟩]
    IsProse prose ∧ (∀ p ∈ ps, p.IsPlain) ∧
      House.findings {} (assemble prose ps) = findings {} 5 ps ∧
      findings {} 5 ps =
        [⟨24, 38, "[[/check dex]]", .nonCanonical "[[/check dex]]" "[[/check dexterity]]"⟩,
          ⟨47, 64, "[[/skill sanity]]", .unknownName .skill "sanity"⟩] := by
  intro prose ps
  have hprose : IsProse prose := ⟨by decide, by decide⟩
  have hps : ∀ p ∈ ps, p.IsPlain := by
    simp only [ps, List.forall_mem_cons, List.not_mem_nil, false_implies, implies_true, and_true]
    refine ⟨⟨?_, ⟨?_, ?_⟩, ?_⟩, ⟨?_, ⟨?_, ?_⟩, ?_⟩, ⟨?_, ⟨?_, ?_⟩, ?_⟩⟩ <;> decide +kernel
  exact ⟨hprose, hps, findings_assembled {} hprose hps, by decide +kernel⟩

end Passage

end RollMarkup
