import Mathlib
import RollMarkup.Proofs.Command.RuleLink
import RollMarkup.Proofs.Token.Characters

/-!
# Canonical texts of rule links

What was read of a body without closing brackets holds none (`closed_read`). The canonical text of a
rule link is read as a rule link with the same canonical text (`isFixed`), whatever rule it names.
-/

namespace RollMarkup

namespace RuleLink

variable {r : RuleLink}

theorem mem_texts {s : String} : s ∈ r.texts ↔ s ∈ r.rule := by
  simp only [texts, Option.mem_toList, Option.mem_def]

/-- A rule link that is read from a body without closing brackets holds none. -/
theorem closed_read {body : String} (h : ']' ∉ body.toList) :
    ∀ s ∈ (read body).texts, ']' ∉ s.toList := by
  have hcut : ∀ t ∈ (cutApply (Token.split body)).1, ']' ∉ t.toList := by
    intro t ht
    apply Token.not_mem_split h t
    unfold cutApply at ht
    split at ht
    · exact List.dropLast_subset _ ht
    · exact List.dropLast_subset _ ht
    · exact ht
  have htext : ']' ∉ (Text.spaced (cutApply (Token.split body)).1).toList :=
    Token.not_mem_spaced (by decide) hcut
  intro s hs
  rw [mem_texts, read] at hs
  split at hs
  · cases hs
  · split at hs
    next c value hcategory =>
      obtain ⟨p, hp, hcategory⟩ := Option.bind_eq_some_iff.mp hcategory
      obtain ⟨k, -, hk⟩ := Option.map_eq_some_iff.mp hcategory
      obtain ⟨rfl, rfl⟩ := Prod.mk.inj hk
      have hfilled : Text.filled (some (Token.toValue p.2)) = some s := hs
      obtain rfl := Option.some.inj (Text.filled_eq_some.mp hfilled).1
      exact Token.not_mem_toValue (Text.not_mem_of_cut? htext hp).2
    · obtain rfl := Option.some.inj hs
      exact Token.not_mem_toValue htext

/-- What is read of the body of a rule link has the same body. -/
theorem body_read (quotes : ∀ s ∈ r.texts, '"' ∉ s.toList) : (read r.body).body = r.body := by
  cases hf : Text.filled r.rule with
  | none =>
    rw [body_none hf]
    rfl
  | some rule =>
    rw [read_body hf (quotes rule (mem_texts.mpr (Text.filled_eq_some.mp hf).1)), body_recovered hf]

/-- The canonical text of a rule link without a closing bracket is found as a whole. -/
theorem isReadable (closed : ∀ s ∈ r.texts, ']' ∉ s.toList) :
    Command.IsReadable .reference (.link r) :=
  ⟨_, Occurrence.first?_enclosed (closed_body closed)⟩

/-- The canonical text of a rule link is fixed. -/
theorem isFixed (closed : ∀ s ∈ r.texts, ']' ∉ s.toList) (quotes : ∀ s ∈ r.texts, '"' ∉ s.toList) :
    Command.IsFixed .reference (.link r) :=
  ⟨_, Occurrence.first?_enclosed (closed_body closed), congrArg enclosed (body_read quotes)⟩

end RuleLink

end RollMarkup
