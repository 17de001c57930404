import Mathlib
import RollMarkup.Proofs.Command.Decoding
import RollMarkup.Proofs.Document.Names
import RollMarkup.Shell.Run

/-!
# Commands given back to the program

The record of a command survives JSON, and when the program gets the JSON of a command that it found in a
text, it writes the canonical text of that command (`recovered_from_json`).
-/

namespace RollMarkup

instance : Keyword.Lawful Kind where
  ofWord?_word k := by cases k <;> rfl

namespace Json

/-- The text of an object begins with a brace. -/
theorem IsPrinted.begins {ms : List (String × Json)} {text : String}
    (h : (object ms).IsPrinted text) : ∃ cs, text.toList = '\x7b' :: cs := by
  rcases h with rfl | ⟨depth, rfl⟩
  · exact ⟨_, by simp [compact]; rfl⟩
  · rw [prettyAt, block]
    split
    · exact ⟨_, by simp; rfl⟩
    · exact ⟨_, by simp; rfl⟩

end Json

namespace Command

/-- Any text of the JSON of a command is read as an object from which the command is decoded. -/
theorem exists_read {c : Command} {k : Kind} (hc : c.fits k = true) {text : String}
    (htext : c.toJson.IsPrinted text) :
    ∃ ms, Json.read? text = some (.object ms) ∧ ofMembers k ms = .ok c := by
  obtain ⟨ms, hms, hdecode⟩ := exists_members Json.rearranges_sorted hc
  have hreadable : c.toJson.IsReadable Json.maxDepth := c.isReadable_toJson.mono (by decide)
  exact ⟨ms, by rw [Json.read?_of_isPrinted hreadable htext, hms], hdecode⟩

end Command

namespace Shell

open Arguments (isOption)

/-- What `serialize` takes. -/
private abbrev serializeForm : Form :=
  { valued := [("--json", .text)] }

/-- The first argument that is no option is the operand. -/
theorem sort_operand {word : String} (hword : isOption word = false) (rest : List String) :
    Arguments.sort serializeForm {} (word :: rest) =
      Arguments.sort serializeForm { operand := some word } rest := by
  have hdashes : word ≠ "--" := by
    rintro rfl
    cases hword
  conv_lhs => unfold Arguments.sort
  rw [if_neg hdashes, hword]
  rfl

/-- The argument behind `--json` is its value, if it is no option. -/
theorem sort_value {text : String} (htext : isOption text = false) (a : Arguments)
    (ha : a.values = []) :
    Arguments.sort serializeForm a ["--json", text] =
      .ok { a with values := [("--json", text)] } := by
  have hvalue : a.addValue serializeForm "--json" text =
      .ok { a with values := [("--json", text)] } := by
    rw [Arguments.addValue, ha]
    rfl
  have hstep : Arguments.sort serializeForm a ["--json", text] =
      if isOption text then .error .usage
      else (a.addValue serializeForm "--json" text).bind fun a =>
        Arguments.sort serializeForm a [] := rfl
  rw [hstep, htext, hvalue]
  rfl

/-- The arguments of a serialization are taken for the kind and the text. -/
theorem ofArguments_serialize {word text : String} (hword : isOption word = false)
    (htext : isOption text = false) :
    Invocation.ofArguments ["serialize", word, "--json", text] =
      .ok (.serialize word (some text)) := by
  rw [Invocation.ofArguments, Invocation.ofSerialize, Arguments.read, sort_operand hword,
    sort_value htext _ rfl]
  rfl

theorem isOption_word (k : Kind) : isOption (Keyword.word k) = false := by
  cases k <;> rfl

/-- The text of an object is not blank, and it is no option. -/
theorem jsonOf_of_isPrinted {ms : List (String × Json)} {text : String}
    (h : (Json.object ms).IsPrinted text) {v : Json} (hv : Json.read? text = some v) :
    isOption text = false ∧ jsonOf text = .ok v := by
  obtain ⟨cs, hcs⟩ := h.begins
  have hblank : text.toList.all Text.isBlank = false := by
    rw [hcs]
    rfl
  refine ⟨?_, ?_⟩
  · rw [isOption, hcs]
    rfl
  · rw [jsonOf, hblank, hv]
    rfl

/-- The program writes the canonical text of the command whose JSON it is given. -/
theorem run_serialize {c : Command} {k : Kind} (hc : c.fits k = true) {text : String}
    (htext : c.toJson.IsPrinted text) (stdin : ByteArray) (lookup : String → Option Entry) :
    run ["serialize", Keyword.word k, "--json", text] stdin lookup =
      { stdout := c.write k ++ "\n" } := by
  obtain ⟨members, hmembers, -⟩ := Command.exists_members Json.rearranges_id hc
  obtain ⟨ms, hread, hdecode⟩ := Command.exists_read hc htext
  have hobject : (Json.object members).IsPrinted text := hmembers ▸ htext
  obtain ⟨hoption, hjson⟩ := jsonOf_of_isPrinted hobject hread
  have hwritten : writtenText stdin (Keyword.word k) (some text) = .ok (c.write k) := by
    rw [writtenText, Keyword.Lawful.ofWord?_word]
    show (jsonOf text).bind (commandText k) = _
    rw [hjson]
    show commandText k (.object ms) = _
    rw [commandText, hdecode]
  -- neither the word of a kind nor the text of an object looks like an option
  rw [run, ofArguments_serialize (isOption_word k) hoption]
  show respond ((writtenText stdin (Keyword.word k) (some text)).map (· ++ "\n")) = _
  rw [hwritten]
  rfl

end Shell

/-- A command of any kind is decoded from its own JSON, as it is or after it was written as text, on one
line or on several, and read again. So a command found in a document is written in canonical form by the
program when it gets the JSON of the command. -/
theorem Command.recovered_from_json :
    (∀ (k : Kind) (c : Command), c.fits k = true →
      (∃ ms, c.toJson = .object ms ∧ ofMembers k ms = .ok c) ∧
        ∀ text, c.toJson.IsPrinted text →
          ∃ ms, Json.read? text = some (.object ms) ∧ ofMembers k ms = .ok c) ∧
      ∀ (document : String) (o : Occurrence), Occurrence.first? document = some o →
        ∀ text, o.command.toJson.IsPrinted text →
          ∀ (stdin : ByteArray) (lookup : String → Option Shell.Entry),
            Shell.run ["serialize", Keyword.word o.kind, "--json", text] stdin lookup =
              { stdout := o.canonical ++ "\n" } := by
  refine ⟨fun k c hc => ⟨exists_members Json.rearranges_id hc, fun text htext =>
    exists_read hc htext⟩, ?_⟩
  intro document o ho text htext stdin lookup
  have hfound : o.IsFound := ⟨document, ho⟩
  exact Shell.run_serialize hfound.fits htext stdin lookup

/-- A damage roll with two types, which are a list, and with the flag that asks for the average. -/
theorem Command.recovered_from_json_damage :
    ∃ o, Occurrence.first? "It takes [[/damage 2d6 fire cold average]]." = some o ∧
      o.command.toJson.IsPrinted
        "\x7b\"formula\":\"2d6\",\"type\":[\"fire\",\"cold\"],\"average\":true\x7d" ∧
      Shell.run
          ["serialize", "damage", "--json",
            "\x7b\"formula\":\"2d6\",\"type\":[\"fire\",\"cold\"],\"average\":true\x7d"]
          .empty (fun _ => none) =
        { stdout := "[[/damage 2d6 fire cold average]]\n" } := by
  have hfirst : Occurrence.first? "It takes [[/damage 2d6 fire cold average]]." =
      some { kind := .damage
             command := .damage
               { formula := some "2d6", types := some (.many ["fire", "cold"])
                 average := some (.shown true) }
             text := "[[/damage 2d6 fire cold average]]", start := 9, stop := 42 } := by
    decide +kernel
  refine ⟨_, hfirst, .inl (by decide +kernel), ?_⟩
  exact Command.recovered_from_json.2 _ _ hfirst _ (.inl (by decide +kernel)) .empty fun _ => none

end RollMarkup
