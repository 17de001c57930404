import Mathlib
import RollMarkup.Proofs.Document.Canonical
import RollMarkup.Proofs.Known.Check
import RollMarkup.Proofs.Known.Save

/-!
# Names in canonical texts

A house that accepts the text of a command accepts its canonical text (`accepts_canonical`), if it knows
the names of a check or a saving throw also where the canonical text has them. Without that it may not:
an ability of the house loses its key and counts as a skill (`not_accepts_canonical`).
-/

namespace RollMarkup

namespace Command

/-- Whether the names of a command are known where its canonical text has them. Only checks and saving
throws have names. -/
def IsKnownAgain (h : House) (k : Kind) : Command → Prop
  | check c => c.IsKnownAgain h k
  | save s => s.IsKnownAgain h
  | _ => True

variable {c : Command} {k : Kind}

/-- A check fits the kinds of checks only. -/
theorem isKind_check {d : Check} (h : (check d).fits k = true) : Check.IsKind k := by
  have hk : (empty k).kind = .check := of_decide_eq_true h
  unfold Check.IsKind
  revert hk
  cases k <;> decide

/-- A saving throw fits the kinds of saving throws only. -/
theorem isKind_save {s : Save} (h : (save s).fits k = true) : Save.IsKind k := by
  have hk : (empty k).kind = .save := of_decide_eq_true h
  unfold Save.IsKind
  revert hk
  cases k <;> decide

/-- A command that is neither a check nor a saving throw has no names, nor has another one that fits its
kind. -/
theorem knowsNames_of_fits {h : House} {d : Command} (hc : c.fits k = true) (hd : d.fits k = true)
    (hcheck : ∀ e, c ≠ check e) (hsave : ∀ s, c ≠ save s) : h.KnowsNames d := by
  have hkind : d.kind = c.kind := by
    rw [fits, decide_eq_true_eq] at hc hd
    rw [← hd, hc]
  have hnames : d.names = [] := by
    cases d with
    | check e =>
      cases c with
      | check e => exact absurd rfl (hcheck e)
      | _ => cases hkind
    | save s =>
      cases c with
      | save s => exact absurd rfl (hsave s)
      | _ => cases hkind
    | _ => rfl
  rw [House.KnowsNames, hnames]
  rintro _ ⟨⟩

end Command

namespace Heading

/-- What is read behind a heading fits its kind. -/
theorem fits_read (h : Heading) (label : Option String) (body : String) :
    (h.read label body).fits h.kind = true := by
  cases h with
  | rollFor a => rfl
  | ofKind k => cases k <;> rfl

end Heading

namespace Occurrence

/-- A command that was found fits its kind. -/
theorem IsFound.fits {o : Occurrence} (h : o.IsFound) : o.command.fits o.kind = true := by
  obtain ⟨body, -, ⟨hd, -, label, -, hkind, hcommand⟩ | ⟨hkind, hcommand⟩⟩ := h.exists_read
  · rw [hkind, hcommand]
    exact hd.fits_read label body
  · rw [hkind, hcommand]
    rfl

end Occurrence

namespace House

open Occurrence

instance (h : House) (c : Command) : Decidable (h.KnowsNames c) :=
  inferInstanceAs (Decidable (∀ n ∈ c.names, h.knows n.1 n.2 = true))

/-- The text of a command is accepted if and only if the names in that command are known. -/
theorem accepts_text {h : House} {o : Occurrence} (ho : o.IsFound) :
    h.Accepts o.text ↔ h.KnowsNames o.command := by
  rw [accepts_iff, scan_text ho]
  constructor
  · intro known
    let alone : Occurrence := { o with start := 0, stop := byteLength o.text.toList }
    exact known alone (List.mem_singleton_self alone)
  · intro known p hp
    rw [List.mem_singleton.mp hp]
    exact known

/-- A house that accepts the text of a command accepts its canonical text, if it knows the names of the
command where that text has them. -/
theorem accepts_canonical {h : House} {text : String} {o : Occurrence} (ho : first? text = some o)
    (accepted : h.Accepts o.text) (again : o.command.IsKnownAgain h o.kind) :
    h.Accepts o.canonical := by
  have hfound : o.IsFound := ⟨text, ho⟩
  have known : h.KnowsNames o.command := (accepts_text hfound).mp accepted
  have closed := hfound.closed
  obtain ⟨⟨d, hd⟩, -⟩ := hfound.isKept
  have hcanonical : first? o.canonical = some (whole o.kind d o.canonical) := hd
  have hdnames : h.KnowsNames d := by
    cases hc : o.command with
    | check c =>
      have hk : Check.IsKind o.kind := Command.isKind_check (hc ▸ hfound.fits)
      rw [hc] at known again hd closed
      obtain ⟨hwhole, hnames⟩ := Check.knowsNames_read known again
      rw [Check.first?_of_read hk closed hwhole rfl] at hd
      obtain rfl := congrArg Occurrence.command (Option.some.inj hd)
      exact hnames
    | save s =>
      have hk : Save.IsKind o.kind := Command.isKind_save (hc ▸ hfound.fits)
      rw [hc] at known again hd closed
      obtain ⟨hwhole, hnames⟩ := Save.knowsNames_read known again
      rw [Save.first?_of_read hk closed hwhole rfl] at hd
      obtain rfl := congrArg Occurrence.command (Option.some.inj hd)
      exact hnames
    -- no other command has names, and the canonical text is one of the same kind
    | _ =>
      have hfits : d.fits o.kind = true := IsFound.fits (o := whole o.kind d o.canonical) ⟨_, hcanonical⟩
      refine Command.knowsNames_of_fits hfound.fits hfits ?_ ?_ <;> intro e he <;> rw [hc] at he <;>
        cases he
  exact (accepts_text (o := whole o.kind d o.canonical) ⟨_, hcanonical⟩).mpr hdnames

/-- A house skill beside a known one keeps its key, and its name. -/
theorem accepts_canonical_sanity :
    ∃ o, first? "[[/check skill=prc skill=Sanity dc=15 format=long]]" = some o ∧
      House.Accepts { skills := ["sanity"] } o.text ∧
      o.command.IsKnownAgain { skills := ["sanity"] } o.kind ∧
      o.canonical = "[[/check skill=perception/Sanity dc=15 format=long]]" ∧
      House.Accepts { skills := ["sanity"] } o.canonical := by
  let h : House := { skills := ["sanity"] }
  let o : Occurrence :=
    { kind := .check
      command := .check
        { skills := some (.many ["perception", "Sanity"])
          dc := some (.number 15)
          format := some .long }
      text := "[[/check skill=prc skill=Sanity dc=15 format=long]]"
      start := 0
      stop := 51 }
  have hfound : first? "[[/check skill=prc skill=Sanity dc=15 format=long]]" = some o := by
    decide +kernel
  have accepted : h.Accepts o.text := (accepts_text ⟨_, hfound⟩).mpr (by decide +kernel)
  have again : o.command.IsKnownAgain h o.kind := by
    show Check.IsKnownAgain _ _ _
    rw [Check.IsKnownAgain, if_pos (by decide +kernel)]
    decide +kernel
  exact ⟨o, hfound, accepted, again, by decide +kernel, accepts_canonical hfound accepted again⟩

/-- An ability of the house is written without its key, and counts as a skill then. -/
theorem not_accepts_canonical :
    ¬ ∀ (h : House) (text : String) (o : Occurrence), first? text = some o →
      h.Accepts o.text → h.Accepts o.canonical := by
  intro claim
  let h : House := { abilities := ["honor"] }
  let o : Occurrence :=
    { kind := .check
      command := .check { ability := some "honor" }
      text := "[[/check ability=honor]]"
      start := 0
      stop := 24 }
  let p : Occurrence := whole .check (.check { skills := some (.one "honor") }) "[[/check honor]]"
  have ho : first? "[[/check ability=honor]]" = some o := by decide +kernel
  have hp : first? "[[/check honor]]" = some p := by decide +kernel
  have hcanonical : o.canonical = p.text := by decide +kernel
  have accepted : h.Accepts o.text := (accepts_text ⟨_, ho⟩).mpr (by decide +kernel)
  have haccepts := claim h _ o ho accepted
  rw [hcanonical, accepts_text ⟨_, hp⟩] at haccepts
  exact absurd haccepts (by decide +kernel)

end House

end RollMarkup
