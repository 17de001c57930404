import Mathlib
import RollMarkup.Proofs.Document.Scanning

/-!
# Commands in and out of their document

A command means the same in its document and alone: the first command of a document is the first one of
all, and the text of each command, cut out of the document, is read as that command (`first?_excerpt`).
Nothing in front of a command or behind it has a part in what it means.
-/

namespace RollMarkup

namespace Occurrence

/-- The search for the first command is the search for all of them, up to the first one. -/
theorem firstChars?_eq_head? (start : Nat) (cs : List Char) :
    firstChars? start cs = (scanChars start cs).head? := by
  induction cs generalizing start with
  | nil => rw [scanChars, firstChars?, List.head?_nil]
  | cons c cs ih =>
    cases h : Match.atHead? (c :: cs) with
    | none =>
      rw [scanChars_of_none h, ← ih]
      simp only [firstChars?, h]
    | some m => rw [firstChars?_of_atHead? h, scanChars_of_some h, List.head?_cons]

/-- Every command that is found is a match somewhere in the text. -/
theorem exists_match_of_mem {start : Nat} {cs : List Char} {o : Occurrence}
    (h : o ∈ scanChars start cs) :
    ∃ before m, Match.atHead? (m.text ++ m.skipped ++ m.rest) = some m ∧
      cs = before ++ (m.text ++ m.skipped ++ m.rest) ∧ o = ofMatch (start + byteLength before) m := by
  induction start, cs using scanChars.induct with
  | case1 start =>
    rw [scanChars] at h
    cases h
  | case2 start c cs hnone ih =>
    rw [scanChars_of_none hnone] at h
    obtain ⟨before, m, hm, rfl, ho⟩ := ih h
    refine ⟨c :: before, m, hm, rfl, ?_⟩
    rw [ho, byteLength, Nat.add_assoc]
  | case3 start c cs first hfirst ih =>
    rw [scanChars_of_some hfirst] at h
    have hcs := Match.atHead?_append hfirst
    rcases List.mem_cons.mp h with rfl | h
    · refine ⟨[], first, ?_, hcs.symm, rfl⟩
      rw [hcs]
      exact hfirst
    · -- a later command stands behind the first match and what that one skips
      obtain ⟨before, m, hm, hrest, ho⟩ := ih h
      refine ⟨first.text ++ first.skipped ++ before, m, hm, ?_, ?_⟩
      · rw [List.append_assoc _ before, ← hrest, hcs]
      · rw [ho, byteLength_append, byteLength_append]
        simp only [Nat.add_assoc]

/-- The first command of a document is the first of its commands, and every command of a document is
what its text is read as alone, from the first byte to the last. -/
theorem first?_excerpt (document : String) :
    first? document = (scan document).head? ∧ (first? document = none ↔ scan document = []) ∧
      ∀ o ∈ scan document,
        first? o.text = some { o with start := 0, stop := o.text.utf8ByteSize } := by
  have hhead : first? document = (scan document).head? := firstChars?_eq_head? 0 document.toList
  refine ⟨hhead, ?_, fun o ho => ?_⟩
  · rw [hhead, List.head?_eq_none_iff]
  · obtain ⟨before, m, hm, -, rfl⟩ := exists_match_of_mem ho
    have halone : Match.atHead? (ofMatch (0 + byteLength before) m).text.toList =
        some { m with skipped := [], rest := [] } := by
      rw [ofMatch, String.toList_ofList]
      exact Match.atHead?_text hm
    rw [first?_of_atHead? halone String.toList_ofList.symm, whole, byteLength_toList]
    rfl

/-- A saving throw is told apart from the braces behind it, and a roll keeps its label. -/
theorem first?_excerpt_luck :
    ∃ o p, scan "¿[[/save dex [[/save]]\x7bDodge\x7d or [[/roll 1d4]]\x7bLuck\x7d?" = [o, p] ∧
      (o.text = "[[/save dex [[/save]]" ∧ o.start = 2 ∧
        first? o.text = some { o with start := 0, stop := o.text.utf8ByteSize }) ∧
      p.text = "[[/roll 1d4]]\x7bLuck\x7d" ∧ p.start = 34 ∧
        first? p.text = some { p with start := 0, stop := p.text.utf8ByteSize } := by
  let document := "¿[[/save dex [[/save]]\x7bDodge\x7d or [[/roll 1d4]]\x7bLuck\x7d?"
  let o : Occurrence :=
    { kind := .save
      command := .save { abilities := some (.many ["dexterity", "[[/save"]) }
      text := "[[/save dex [[/save]]"
      start := 2
      stop := 23 }
  let p : Occurrence :=
    { kind := .roll
      command := .roll
        { formula := some "1d4", inlineForm := some .deferred, label := some "Luck" }
      text := "[[/roll 1d4]]\x7bLuck\x7d"
      start := 34
      stop := 53 }
  have hscan : scan document = [o, p] := by decide +kernel
  obtain ⟨-, -, halone⟩ := first?_excerpt document
  rw [hscan] at halone
  exact ⟨o, p, hscan, ⟨rfl, rfl, halone o List.mem_cons_self⟩, rfl, rfl,
    halone p (List.mem_cons_of_mem o List.mem_cons_self)⟩

end Occurrence

end RollMarkup
