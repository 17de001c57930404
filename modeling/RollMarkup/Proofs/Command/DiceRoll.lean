import Mathlib
import RollMarkup.Proofs.Document.Enclosed
import RollMarkup.Proofs.Token.Entry
import RollMarkup.Proofs.Token.Characters

/-!
# Dice rolls are read as they were written

A formula and a description that were trimmed are given back by the row they are written as
(`read_row`), and a label by the braces behind the brackets (`first?_labelled`).
-/

namespace RollMarkup

namespace DiceRoll

variable {s t : String} {audience : Option Audience}

/-! ### Trimmed texts -/

/-- A text that is left when something is trimmed: it is not empty, and has no blank at either end. -/
structure IsTrimmed (s : String) : Prop where
  ne_empty : s ≠ ""
  trimmed : Text.IsTrimmed s.toList

theorem IsTrimmed.ne_nil (h : IsTrimmed s) : s.toList ≠ [] := by
  simpa using h.ne_empty

/-- A text that is left after trimming is trimmed, and adds no character. -/
theorem trimmed?_eq_some {cs : List Char} (h : trimmed? cs = some s) :
    IsTrimmed s ∧ ∀ c ∈ s.toList, c ∈ cs := by
  have hfilled : Text.filled (some (String.ofList (Text.trim cs))) = some s := h
  obtain ⟨hs, hne⟩ := Text.filled_eq_some.mp hfilled
  obtain rfl := Option.some.inj hs
  refine ⟨⟨hne, ?_⟩, fun c hc => ?_⟩
  · rw [String.toList_ofList]
    exact Text.isTrimmed_trim cs
  · rw [String.toList_ofList] at hc
    exact Text.mem_of_mem_trim hc

/-- What was trimmed is found where blanks are around it. -/
theorem IsTrimmed.trimmed?_eq (h : IsTrimmed s) {cs : List Char}
    (hcs : Text.trim cs = Text.trim s.toList) : trimmed? cs = some s := by
  rw [trimmed?, hcs, Text.trim_eq_self h.trimmed, String.ofList_toList, Text.filled?,
    if_neg h.ne_empty]

/-! ### The body -/

/-- The row that a formula and a description are written as. -/
def row (formula description : Option String) : String :=
  Text.spaced
    ((formula.getD "" :: (description.map ("# " ++ ·)).toList).filter (· ≠ ""))

/-- The row of a formula and a description is read as both of them. -/
theorem read_row (audience : Option Audience) {formula description : Option String}
    (hf : ∀ f ∈ formula, IsTrimmed f ∧ '#' ∉ f.toList) (hd : ∀ d ∈ description, IsTrimmed d) :
    read audience none (String.ofList (Text.trim (row formula description).toList)) =
      { formula, description, audience } := by
  have hmark : Text.IsTrimmed ['#'] := ⟨by simp; decide, by simp; decide⟩
  cases formula with
  | none =>
    cases description with
    | none => rfl
    | some d =>
      obtain hd := hd d rfl
      have hrow : (row none (some d)).toList = ['#'] ++ [' '] ++ d.toList := by
        simp [row, Text.spaced]
      have htrim := Text.trim_eq_self (hmark.append hd.trimmed (by simp) hd.ne_nil [' '])
      have hdescription := hd.trimmed?_eq (Text.trim_cons_space d.toList)
      rw [read, hrow, htrim, String.toList_ofList]
      show DiceRoll.mk none audience (trimmed? (' ' :: d.toList)) _ _ _ = _
      rw [hdescription]
      rfl
  | some f =>
    obtain ⟨hf, hnum⟩ := hf f rfl
    cases description with
    | none =>
      have hrow : (row (some f) none).toList = f.toList := by
        simp [row, Text.spaced, hf.ne_empty]
      rw [read, hrow, Text.trim_eq_self hf.trimmed, String.toList_ofList,
        Text.cutFirst?_eq_none_iff.mpr hnum]
      show DiceRoll.mk (trimmed? f.toList) audience none _ _ _ = _
      rw [hf.trimmed?_eq rfl]
      rfl
    | some d =>
      obtain hd := hd d rfl
      have hrow : (row (some f) (some d)).toList = f.toList ++ [' ', '#', ' '] ++ d.toList := by
        simp [row, Text.spaced, hf.ne_empty, String.intercalate_cons_cons]
      have htrim := Text.trim_eq_self
        (hf.trimmed.append hd.trimmed hf.ne_nil hd.ne_nil [' ', '#', ' '])
      -- the row is cut at its first `#`, and the formula holds none
      have hbefore : '#' ∉ f.toList ++ [' '] := by simpa using hnum
      have hcut := Text.cutFirst?_append hbefore (' ' :: d.toList)
      have hparts : f.toList ++ [' ', '#', ' '] ++ d.toList =
          f.toList ++ [' '] ++ '#' :: ' ' :: d.toList := by simp
      rw [read, hrow, htrim, String.toList_ofList, hparts, hcut]
      show DiceRoll.mk (trimmed? (f.toList ++ [' '])) audience (trimmed? (' ' :: d.toList)) _ _ _ = _
      rw [hf.trimmed?_eq (Text.trim_append_space f.toList),
        hd.trimmed?_eq (Text.trim_cons_space d.toList)]
      rfl

/-- The label does not matter to what the body says. -/
theorem read_label (audience : Option Audience) (label : Option String) (body : String) :
    read audience label body =
      { read audience none body with
        inlineForm := label.map fun _ => .deferred
        label := Text.filled label } := by
  simp only [read]

end DiceRoll

namespace Occurrence

/-- A dice roll with a label behind it is found as a whole, label and all. -/
theorem first?_labelled {parts : List String} {label : String}
    (closed : ∀ p ∈ parts, ']' ∉ p.toList) (hlabel : '\x7d' ∉ label.toList) :
    let text := bracketed "roll" parts ++ ("\x7b" ++ label ++ "\x7d")
    first? text =
      some (whole .roll (Command.read .roll (some label)
        (String.ofList (Text.trim (Text.spaced (parts.filter (· ≠ ""))).toList))) text) := by
  intro text
  obtain ⟨body, hbody, hmem, htrim⟩ := toList_bracketed (.ofKind .roll) parts
  have hclosed : ']' ∉ body := not_mem_body hmem closed
  have htext : text.toList = Match.enclose (.ofKind .roll) body ++ Match.braced label.toList := by
    rw [← hbody]
    simp [text, Match.braced]
    rfl
  have hbraced := Match.label?_braced hlabel []
  rw [List.append_nil] at hbraced
  have hm := Match.atHead?_enclose (h := .ofKind .roll) (by decide) hclosed
    (Match.braced label.toList)
  simp only [Match.ofParts, hbraced, if_true, String.ofList_toList] at hm
  rw [← htext] at hm
  rw [first?_of_atHead? hm (by rw [htext]; rfl), htrim]
  rfl

end Occurrence

end RollMarkup
