import Mathlib
import RollMarkup.Proofs.Command.Damage.Body
import RollMarkup.Proofs.Token.Runs

/-!
# Every token of a damage body counts

A body without keys is settings at its end and a row of tokens before them. Reading divides the row, or
each run of it between ampersands, into a formula and types, and neither drops a token nor moves one
(`read_keeps_tokens`).
-/

namespace RollMarkup

namespace Damage

/-! ### Runs between ampersands -/

/-- A part of a row is there in the row. -/
theorem infix_intercalate {α : Type} {sep p : List α} {ps : List (List α)} (hp : p ∈ ps) :
    p <:+: sep.intercalate ps := by
  induction ps with
  | nil => cases hp
  | cons q qs ih =>
    cases qs with
    | nil =>
      obtain rfl := List.mem_singleton.mp hp
      rw [List.intercalate_singleton]
    | cons r rs =>
      rw [List.intercalate_cons_cons]
      rcases List.mem_cons.mp hp with rfl | hp
      · rw [List.append_assoc]
        exact (List.prefix_append _ _).isInfix
      · exact (ih hp).trans (List.suffix_append _ _).isInfix

/-- Without the separators, the parts of a row follow each other. -/
theorem filter_intercalate {α : Type} [DecidableEq α] {a : α} {ps : List (List α)}
    (h : ∀ p ∈ ps, a ∉ p) : ([a].intercalate ps).filter (· ≠ a) = ps.flatten := by
  have hpart : ∀ p ∈ ps, p.filter (· ≠ a) = p := by
    intro p hp
    rw [List.filter_eq_self]
    intro b hb
    rw [decide_eq_true_iff]
    rintro rfl
    exact h p hp hb
  induction ps with
  | nil => rfl
  | cons p ps ih =>
    have hp := hpart p List.mem_cons_self
    have hps := ih (fun q hq => h q (List.mem_cons_of_mem p hq))
      fun q hq => hpart q (List.mem_cons_of_mem p hq)
    cases ps with
    | nil => rw [List.intercalate_singleton, hp, List.flatten_singleton]
    | cons q qs =>
      rw [List.intercalate_cons_cons, List.filter_append, List.filter_append, hp, hps,
        List.filter_cons_of_neg (by simp)]
      simp

/-- No part of a row that is split at a separator holds it. -/
theorem not_mem_of_mem_splitOn {α : Type} [DecidableEq α] {a : α} (l : List α) :
    ∀ p ∈ l.splitOn a, a ∉ p := by
  induction l with
  | nil => simp
  | cons b l ih =>
    rw [List.splitOn_cons_eq_if_modifyHead]
    split
    next => exact List.forall_mem_cons.mpr ⟨List.not_mem_nil, ih⟩
    next hb =>
      -- what is no separator goes to the part that follows, and there always is one
      have hne : a ≠ b := fun h => hb (beq_iff_eq.mpr h.symm)
      obtain ⟨p, ps, hsplit⟩ : ∃ p ps, l.splitOn a = p :: ps :=
        List.exists_cons_of_ne_nil (List.splitOn_ne_nil a l)
      rw [hsplit, List.forall_mem_cons] at ih
      rw [hsplit, List.modifyHead_cons, List.forall_mem_cons]
      exact ⟨List.not_mem_cons_of_ne_of_not_mem hne ih.1, ih.2⟩

/-! ### The division of a run -/

/-- How many tokens of a run are its formula. -/
def formulaLength (run : List String) : Nat :=
  (cutFormula run).1.length

/-- A run of tokens whose first `k` tokens, with spaces between them, are the formula, which is absent if
there are none; the other tokens are the types. -/
structure IsDivided (k : Nat) (run : List String) (formula : Option String)
    (types : Option Selection) : Prop where
  length : k ≤ run.length
  formula_eq : formula = if k = 0 then none else some (Text.spaced (run.take k))
  types_eq : Selection.values types = run.drop k

theorem take_formulaLength (run : List String) :
    run.take (formulaLength run) = (cutFormula run).1 := by
  have happend := congrArg (List.take (formulaLength run)) (cutFormula_fst_append_snd run)
  rw [formulaLength, List.take_left] at happend
  exact happend.symm

theorem drop_formulaLength (run : List String) :
    run.drop (formulaLength run) = (cutFormula run).2 := by
  have happend := congrArg (List.drop (formulaLength run)) (cutFormula_fst_append_snd run)
  rw [formulaLength, List.drop_left] at happend
  exact happend.symm

/-- The cut divides a run into a formula and types, and drops none of its tokens. -/
theorem isDivided_cutFormula {run : List String} (h : ∀ t ∈ run, t ≠ "") :
    IsDivided (formulaLength run) run (Text.filled? (Text.spaced (cutFormula run).1))
      (Selection.ofList? (cutFormula run).2) where
  length := by
    have happend := congrArg List.length (cutFormula_fst_append_snd run)
    rw [List.length_append] at happend
    rw [formulaLength]
    omega
  formula_eq := by
    rw [take_formulaLength, formulaLength]
    cases hcut : (cutFormula run).1 with
    | nil => rfl
    | cons t ts =>
      have ht : t ≠ "" := by
        refine h t ?_
        rw [← cutFormula_fst_append_snd run, hcut]
        exact List.mem_append_left _ List.mem_cons_self
      rw [Text.filled?, if_neg (Token.spaced_ne_empty ht ts), List.length_cons,
        if_neg (Nat.succ_ne_zero _)]
  types_eq := by rw [Selection.values_ofList?, drop_formulaLength]

/-- The formula of a roll and its types give back the tokens that the roll was made of. -/
theorem tokens_rollOf {body : String} {run : List String} (h : run <:+: Token.split body) :
    Token.split (rollOf run).formula ++ Selection.values (rollOf run).types = run := by
  have happend := cutFormula_fst_append_snd run
  have hformula : (cutFormula run).1 <:+: Token.split body := by
    refine List.IsInfix.trans ?_ h
    conv_rhs => rw [← happend]
    exact (List.prefix_append _ _).isInfix
  show Token.split (Text.spaced (cutFormula run).1) ++
    Selection.values (Selection.ofList? (cutFormula run).2) = run
  rw [Token.split_spaced_of_infix hformula, Selection.values_ofList?, happend]

/-! ### Bodies without keys -/

/-- Reading a body without keys loses no token. Without the settings at its end the body is a row of
tokens. If it does not hold the separator, the row is divided into the formula and the types of a single
roll. If it does, each run of the row between ampersands, unless it is empty, is divided in the same way
into the formula and the types of one roll, and these together are the tokens of the row but for the
ampersands. -/
theorem read_keeps_tokens (body : String)
    (h : ∀ t ∈ (Token.split body).head?, '=' ∉ t.toList) :
    let row := (Token.split body).rdropWhile Suffix.isSetting
    (¬ [' ', '&', ' '] <:+: body.toList →
      IsDivided (formulaLength row) row (read body).formula (read body).types ∧
        (read body).rolls = []) ∧
    ([' ', '&', ' '] <:+: body.toList →
      (read body).formula = none ∧ (read body).types = none ∧
        (∃ runs, ["&"].intercalate runs = row ∧ (∀ run ∈ runs, "&" ∉ run) ∧
          (runs.filter (· ≠ [])).Forall₂
            (fun run r => IsDivided (formulaLength run) run (Text.filled? r.formula) r.types)
            (read body).rolls) ∧
        ((read body).rolls.flatMap fun r => Token.split r.formula ++ Selection.values r.types) =
          row.filter (· ≠ "&")) := by
  intro row
  have hrow : row <+: Token.split body := List.rdropWhile_prefix _ _
  have hcut : (Suffix.cut (Token.split body)).1 = row := Suffix.cut_fst _
  have hread := read_of_bare h
  rw [readPositional] at hread
  dsimp only at hread
  rw [hcut] at hread
  constructor
  · intro hone
    rw [if_neg fun hseveral => hone (hasSeveral_iff.mp hseveral)] at hread
    rw [hread]
    exact ⟨isDivided_cutFormula fun t ht => Token.ne_empty_of_mem_split (hrow.subset ht), rfl⟩
  · intro hseveral
    rw [if_pos (hasSeveral_iff.mpr hseveral)] at hread
    have hjoin : ["&"].intercalate (row.splitOn "&") = row := List.intercalate_splitOn "&"
    have hno := not_mem_of_mem_splitOn (a := "&") row
    have hrun : ∀ run ∈ row.splitOn "&", run <:+: Token.split body := by
      intro run hrun
      refine List.IsInfix.trans ?_ hrow.isInfix
      conv_rhs => rw [← hjoin]
      exact infix_intercalate hrun
    rw [hread]
    -- every run is a part of the body, so that its tokens are those of its formula and its types
    refine ⟨rfl, rfl, ⟨row.splitOn "&", hjoin, hno, ?_⟩, ?_⟩
    · rw [List.forall₂_map_right_iff, List.forall₂_same]
      intro run hmem
      exact isDivided_cutFormula fun t ht =>
        Token.ne_empty_of_mem_split ((hrun run (List.mem_of_mem_filter hmem)).subset ht)
    · have hrolls : ∀ run ∈ (row.splitOn "&").filter (· ≠ []),
          Token.split (rollOf run).formula ++ Selection.values (rollOf run).types = run :=
        fun run hmem => tokens_rollOf (hrun run (List.mem_of_mem_filter hmem))
      rw [List.flatMap_map, List.flatMap_def, List.map_congr_left hrolls, List.map_id',
        List.flatten_filter_ne_nil, ← filter_intercalate hno, hjoin]

/-- A group in parentheses, ampersands with nothing between them, a roll that is types alone, a text in
quotes and two settings. -/
theorem read_keeps_tokens_storm :
    let body := "4d6 + (2 thunder & & fire \"cold  iron\" & 1d4 average format=long"
    (∀ t ∈ (Token.split body).head?, '=' ∉ t.toList) ∧ [' ', '&', ' '] <:+: body.toList ∧
      ((read body).rolls.flatMap fun r => Token.split r.formula ++ Selection.values r.types) =
        ["4d6", "+", "(2", "thunder", "fire", "\"cold  iron\"", "1d4"] := by
  intro body
  have hhead : ∀ t ∈ (Token.split body).head?, '=' ∉ t.toList := by decide +kernel
  have hseveral : [' ', '&', ' '] <:+: body.toList := by decide +kernel
  refine ⟨hhead, hseveral, ?_⟩
  rw [((read_keeps_tokens body hhead).2 hseveral).2.2.2]
  decide +kernel

end Damage

end RollMarkup
