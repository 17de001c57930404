import Mathlib
import RollMarkup.Proofs.Command.Damage.Alike
import RollMarkup.Proofs.Document.Enclosed

/-!
# Blanks between the tokens of a command

Two bodies with the same tokens are read alike, whatever blanks stand between and around the tokens
(`first?_enclose_of_split`). The body of a damage roll is the exception: the separator of its rolls is
an ampersand between plain spaces (`not_first?_enclose_of_split`).
-/

namespace RollMarkup

/-- The text of a command of a kind with this body. -/
def Kind.enclose (k : Kind) (body : String) : String :=
  match k with
  | .reference => RuleLink.enclosed body
  | k => "[[/" ++ Keyword.word k ++ " " ++ body ++ "]]"

/-- The text without the blanks at either end. -/
def Text.trimmed (s : String) : String :=
  String.ofList (trim s.toList)

namespace Occurrence

variable {k : Kind} {b c : String}

/-- A command in double brackets is read of its body without the blanks at its ends. -/
theorem first?_enclose (hk : k ≠ .reference) (closed : ']' ∉ b.toList) :
    first? (k.enclose b) =
      some (whole k (Command.read k none (Text.trimmed b)) (k.enclose b)) := by
  have hheading : Heading.ofKind k ∈ Heading.all := by
    cases k <;> first | exact absurd rfl hk | decide
  have htext : (k.enclose b).toList = Match.enclose (.ofKind k) (' ' :: b.toList) := by
    have henclose : k.enclose b = "[[/" ++ Keyword.word k ++ " " ++ b ++ "]]" := by
      cases k <;> first | exact absurd rfl hk | rfl
    rw [henclose]
    simp [Match.enclose, Match.opening, Heading.keyword]
  have hclosed : ']' ∉ ' ' :: b.toList := by simp [closed]
  have hm := Match.atHead?_enclose hheading hclosed []
  rw [List.append_nil, ← htext] at hm
  rw [first?_of_atHead? hm (by rw [htext]; rfl), Match.ofParts_unlabelled rfl]
  simp only [Text.trim_cons_space]
  rfl

end Occurrence

namespace Command

variable {k : Kind} {b c : String}

/-- Every body but those of dice rolls and of damage rolls is read by its tokens alone. -/
theorem read_congr (hroll : k ≠ .roll) (hdamage : k ≠ .damage) (h : Token.split b = Token.split c) :
    Command.read k none b = Command.read k none c := by
  cases k with
  | check | skill | tool => rw [Command.read, Command.read, Check.read, Check.read, h]
  | attack => rw [Command.read, Command.read, Attack.read, Attack.read, h]
  | damage => exact absurd rfl hdamage
  | heal => rw [Command.read, Command.read, Heal.read, Heal.read, h]
  | save | concentration => rw [Command.read, Command.read, Save.read, Save.read, h]
  | item => rw [Command.read, Command.read, Item.read, Item.read, h]
  | roll => exact absurd rfl hroll
  | reference => rw [Command.read, Command.read, RuleLink.read, RuleLink.read, h]

end Command

namespace Occurrence

variable {k : Kind} {b c : String}

/-- Two commands of a kind whose bodies have the same tokens are both found as a whole, and they are
the same command, if it is no damage roll or its bodies are read alike (`Damage.ReadsAlike`), and only
then. -/
theorem first?_enclose_of_split (hk : k ≠ .roll) (hb : ']' ∉ b.toList) (hc : ']' ∉ c.toList)
    (h : Token.split b = Token.split c) :
    ∃ d e, first? (k.enclose b) = some (whole k d (k.enclose b)) ∧
      first? (k.enclose c) = some (whole k e (k.enclose c)) ∧
      (d = e ↔ (k = .damage → Damage.ReadsAlike (Text.trimmed b) (Text.trimmed c))) := by
  by_cases hlink : k = .reference
  · subst hlink
    refine ⟨_, _, first?_enclosed hb, first?_enclosed hc, iff_of_true ?_ fun hk => by cases hk⟩
    exact Command.read_congr (k := .reference) hk (by decide) h
  · have htrimmed : Token.split (Text.trimmed b) = Token.split (Text.trimmed c) :=
      Token.bodyTokens_congr h
    refine ⟨_, _, first?_enclose hlink hb, first?_enclose hlink hc, ?_⟩
    by_cases hdamage : k = .damage
    · subst hdamage
      rw [forall_prop_of_true rfl, ← Damage.read_eq_iff htrimmed]
      exact ⟨Command.damage.inj, congrArg Command.damage⟩
    · exact iff_of_true (Command.read_congr hk hdamage htrimmed) fun hk => absurd hk hdamage

/-- Tabs and line breaks around two rolls make no difference, as long as the spaces around the ampersand
stay. -/
theorem first?_enclose_lines :
    Kind.damage ≠ .roll ∧ ']' ∉ "1d6 & 1d4".toList ∧ ']' ∉ "\n1d6\t & \n1d4".toList ∧
      Token.split "1d6 & 1d4" = Token.split "\n1d6\t & \n1d4" ∧
      ∃ d, first? (Kind.damage.enclose "1d6 & 1d4") =
          some (whole .damage d (Kind.damage.enclose "1d6 & 1d4")) ∧
        first? (Kind.damage.enclose "\n1d6\t & \n1d4") =
          some (whole .damage d (Kind.damage.enclose "\n1d6\t & \n1d4")) := by
  have hroll : Kind.damage ≠ .roll := by decide
  have hb : ']' ∉ "1d6 & 1d4".toList := by decide
  have hc : ']' ∉ "\n1d6\t & \n1d4".toList := by decide
  have hsplit : Token.split "1d6 & 1d4" = Token.split "\n1d6\t & \n1d4" := by decide
  have halike : Damage.ReadsAlike (Text.trimmed "1d6 & 1d4") (Text.trimmed "\n1d6\t & \n1d4") :=
    .inr (by decide)
  obtain ⟨d, e, hd, he, hiff⟩ := first?_enclose_of_split hroll hb hc hsplit
  obtain rfl : d = e := hiff.mpr fun _ => halike
  exact ⟨hroll, hb, hc, hsplit, d, hd, he⟩

/-- With tabs around the ampersand, two rolls are read as one roll of the type `&`. -/
theorem not_first?_enclose_of_split :
    ¬ ∀ (k : Kind) (b c : String), k ≠ .roll → ']' ∉ b.toList → ']' ∉ c.toList →
      Token.split b = Token.split c →
        ∃ d, first? (k.enclose b) = some (whole k d (k.enclose b)) ∧
          first? (k.enclose c) = some (whole k d (k.enclose c)) := by
  intro claim
  obtain ⟨d, hd, he⟩ := claim .damage "1d6 & 1d4" "1d6\t&\t1d4" (by decide) (by decide) (by decide)
    (by decide)
  have hspaces : (first? (Kind.damage.enclose "1d6 & 1d4")).map command =
      some (.damage { rolls := [⟨"1d6", none⟩, ⟨"1d4", none⟩] }) := by decide +kernel
  have htabs : (first? (Kind.damage.enclose "1d6\t&\t1d4")).map command =
      some (.damage { formula := some "1d6", types := some (.many ["&", "1d4"]) }) := by
    decide +kernel
  rw [hd, Option.map_some] at hspaces
  rw [he, Option.map_some] at htabs
  exact absurd (hspaces.symm.trans htabs) (by decide)

end Occurrence

end RollMarkup
