import RollMarkup.Main
import RollMarkup.Proofs.Vocabulary.Category
import RollMarkup.Proofs.Vocabulary.Naming
import RollMarkup.Proofs.Field.Numerals
import RollMarkup.Proofs.Field.Values
import RollMarkup.Proofs.Token.Blanks
import RollMarkup.Proofs.Token.Characters
import RollMarkup.Proofs.Token.Entry
import RollMarkup.Proofs.Token.Layout
import RollMarkup.Proofs.Token.Partition
import RollMarkup.Proofs.Token.Suffix
import RollMarkup.Proofs.Command.Attack
import RollMarkup.Proofs.Command.Check
import RollMarkup.Proofs.Command.Damage
import RollMarkup.Proofs.Command.Damage.Tokens
import RollMarkup.Proofs.Command.Decoding
import RollMarkup.Proofs.Command.DiceRoll
import RollMarkup.Proofs.Command.Fields
import RollMarkup.Proofs.Command.Heal
import RollMarkup.Proofs.Command.Item
import RollMarkup.Proofs.Command.RuleLink
import RollMarkup.Proofs.Canonical.Attack
import RollMarkup.Proofs.Canonical.AttackFormula
import RollMarkup.Proofs.Canonical.Check
import RollMarkup.Proofs.Canonical.Damage
import RollMarkup.Proofs.Canonical.DamageRolls
import RollMarkup.Proofs.Canonical.DiceRoll
import RollMarkup.Proofs.Canonical.Heal
import RollMarkup.Proofs.Canonical.Item
import RollMarkup.Proofs.Canonical.RuleLink
import RollMarkup.Proofs.Canonical.Save
import RollMarkup.Proofs.Known.Check
import RollMarkup.Proofs.Known.Save
import RollMarkup.Proofs.Document.Assembly
import RollMarkup.Proofs.Document.Blanks
import RollMarkup.Proofs.Document.Canonical
import RollMarkup.Proofs.Document.Covered
import RollMarkup.Proofs.Document.DiceRoll
import RollMarkup.Proofs.Document.Enclosed
import RollMarkup.Proofs.Document.Excerpt
import RollMarkup.Proofs.Document.Item
import RollMarkup.Proofs.Document.Names
import RollMarkup.Proofs.Document.Phrases
import RollMarkup.Proofs.Document.Scanning
import RollMarkup.Proofs.Document.Spans
import RollMarkup.Proofs.Document.Written
import RollMarkup.Proofs.Json.Reading
import RollMarkup.Proofs.Json.Rearranged
import RollMarkup.Proofs.Shell.Documents
import RollMarkup.Proofs.Shell.Serialize
import RollMarkup.Proofs.Spelling.KeyOrder
import RollMarkup.Proofs.Spelling.Rolls
import RollMarkup.Proofs.Spelling.Settings
import RollMarkup.Proofs.Spelling.Words
