import Mathlib
import RollMarkup.Command.RuleLink
import RollMarkup.Proofs.Document.Enclosed
import RollMarkup.Proofs.Field.Values
import RollMarkup.Proofs.Token.Entry
import RollMarkup.Proofs.Vocabulary.Category
import RollMarkup.Proofs.Vocabulary.Naming

/-!
# Rule links are read as they were written

The token that names a rule is an entry for its category (`target_some`) or a value without a key
(`target_none`). It is read as that category and the canonical name of the rule (`named_target`), whether
or not the body says that a condition is not to be applied (`read_tokens`). So the canonical text of a
link is found in a document as that link, and what is found has the same canonical text
(`first?_write_link`).
-/

namespace RollMarkup

namespace Token

/-- A word is written as it is. -/
theorem ofValue_word {v : String} (h : IsWord v) : ofValue v = v := by
  rw [ofValue, if_neg]
  simp only [needsQuotes, List.any_eq_true, Bool.or_eq_true, beq_iff_eq, not_exists, not_and]
  rintro c hc (hb | he)
  · rw [(h.2 c hc).1] at hb
    cases hb
  · exact (h.2 c hc).2.1 he

end Token

namespace RuleLink

variable {r : RuleLink} {category : Option Category} {rule v : String}

/-- The texts that a rule link is made of. -/
def texts (r : RuleLink) : List String :=
  r.rule.toList

/-! ### What is written -/

/-- Whether the body says that a condition is not to be applied. -/
def withholds (r : RuleLink) (t : Category × String) : Bool :=
  r.apply = some false ∧ t.1 = .condition

/-- The tokens of a body that names a rule with this one. -/
def tokens (withheld : Bool) (token : String) : List String :=
  token :: if withheld then ["apply=false"] else []

/-- A link without a rule has an empty body. -/
theorem body_none (h : Text.filled r.rule = none) : r.body = "" := by
  rw [body, h]

/-- A link with a rule names it, and says behind it if a condition is not to be applied. -/
theorem body_some (h : Text.filled r.rule = some rule) :
    r.body = Text.spaced
      (tokens (r.withholds (target r.category rule)) (target r.category rule).2) := by
  simp only [body, h, tokens, withholds, decide_eq_true_eq]
  split
  · rw [Text.spaced, String.intercalate_cons_cons, String.intercalate_singleton,
      String.append_assoc]
    rfl
  · exact String.intercalate_singleton.symm

/-- The name under which a rule is written: that of the entry it stands for in the given category, or in
the first category that has one if none is given. Any other name stays as it is. -/
def canonicalName (category : Option Category) (rule : String) : String :=
  match category with
  | some c => c.canonical rule
  | none => ((Category.search? rule).map Prod.snd).getD rule

/-- The category that a link to a rule points into: the given one, or else the first that has an entry
for the rule. -/
def linkedCategory (category : Option Category) (rule : String) : Option Category :=
  category.or ((Category.search? rule).map Prod.fst)

/-- A rule is never written with an empty name. -/
theorem canonicalName_ne_empty (category : Option Category) (h : rule ≠ "") :
    canonicalName category rule ≠ "" := by
  cases category with
  | some c => exact Category.canonical_ne_empty h
  | none =>
    rw [canonicalName]
    cases hs : Category.search? rule with
    | none => exact h
    | some found =>
      have he := Category.mem_entries_of_resolve? (Category.resolve?_of_search? hs)
      exact (Category.isPlain_entry he).1.1

/-- A rule's canonical name holds no mark that ends a value or the link, unless the rule does. -/
theorem not_mem_canonicalName (category : Option Category) {x : Char} (hx : x = '"' ∨ x = ']')
    (h : x ∉ rule.toList) : x ∉ (canonicalName category rule).toList := by
  cases category with
  | some c => exact Category.not_mem_canonical hx h
  | none =>
    rw [canonicalName]
    cases hs : Category.search? rule with
    | none => exact h
    | some found =>
      have he := Category.mem_entries_of_resolve? (Category.resolve?_of_search? hs)
      exact (Category.isPlain_entry he).not_mem hx

/-- A category is written with its key. -/
theorem target_some (c : Category) :
    target (some c) rule = (c, (Entry.mk c.key (canonicalName (some c) rule)).toToken) := by
  cases c <;> rfl

/-- A rule of no given category is written without a key. -/
theorem target_none :
    target none rule =
      ((linkedCategory none rule).getD .rule, Token.ofValue (canonicalName none rule)) := by
  rw [target, linkedCategory, canonicalName]
  cases hs : Category.search? rule with
  | none => rfl
  | some found =>
    -- an entry is a word, so that it is its own token
    have he := Category.mem_entries_of_resolve? (Category.resolve?_of_search? hs)
    have hword := (Category.isPlain_entry he).1
    show found = (found.1, Token.ofValue found.2)
    rw [Token.ofValue_word hword]

/-- A link is written for the category it points into, or for `rule` if there is none. -/
theorem fst_target (category : Option Category) (rule : String) :
    (target category rule).1 = (linkedCategory category rule).getD .rule := by
  cases category with
  | some c => rw [target_some, linkedCategory, Option.some_or, Option.getD_some]
  | none => rw [target_none]

/-- The canonical name of a rule is written as the rule is. -/
theorem target_canonicalName (category : Option Category) (rule : String) :
    target category (canonicalName category rule) = target category rule := by
  cases category with
  | some c =>
    rw [target_some, target_some]
    show (c, (Entry.mk c.key (c.canonical (c.canonical rule))).toToken) = _
    rw [Category.canonical_canonical]
    rfl
  | none =>
    rw [canonicalName]
    cases hs : Category.search? rule with
    | none => rfl
    | some found =>
      have he := Category.mem_entries_of_resolve? (Category.resolve?_of_search? hs)
      show target none found.2 = _
      rw [target, target, hs, Category.search?_entry he]

/-- What is not to be applied is a condition. -/
theorem withholds_target :
    r.withholds (target r.category rule) =
      decide (r.apply = some false ∧ linkedCategory r.category rule = some .condition) := by
  rw [withholds, fst_target]
  cases linkedCategory r.category rule <;> simp

/-! ### What is read -/

/-- What a body says that names a rule with this token. -/
def named (apply : Option Bool) (token : String) : RuleLink :=
  match cutCategory? token with
  | some (c, value) => { category := some c, rule := Text.filled? (Token.toValue value), apply }
  | none => { rule := some (Token.toValue token), apply }

/-- An entry for a category names a rule of that category. -/
theorem named_toToken (apply : Option Bool) (c : Category) (hne : v ≠ "") (hv : '"' ∉ v.toList) :
    named apply (Entry.mk c.key v).toToken = { category := some c, rule := some v, apply } := by
  have hkey : '=' ∉ c.key.toList := fun h => ((Category.isPlain_key c).1.2 _ h).2.1 rfl
  have hcut : cutCategory? (Entry.mk c.key v).toToken = some (c, Token.ofValue v) := by
    have hc := Text.cut?_append hkey (Token.ofValue v)
    rw [cutCategory?]
    show Option.bind (Text.cut? '=' (c.key ++ String.singleton '=' ++ Token.ofValue v)) _ = _
    rw [hc, Option.bind_some, Category.ofWord?_key, Option.map_some]
  rw [named, hcut]
  show RuleLink.mk _ (Text.filled? (Token.toValue (Token.ofValue v))) _ = _
  rw [Token.toValue_ofValue hv, Text.filled?, if_neg hne]

/-- No category has a key that begins with a quote, so an equals sign in quotes is part of the
name. -/
theorem cutCategory?_ofValue : cutCategory? (Token.ofValue v) = none := by
  unfold Token.ofValue
  split
  · rw [cutCategory?, Option.bind_eq_none_iff]
    intro p hp
    rw [Option.map_eq_none_iff]
    cases hw : (Keyword.ofWord? p.1 : Option Category) with
    | none => rfl
    | some c =>
      have hkey : Category.key c = p.1 := Keyword.word_of_ofWord? hw
      obtain ⟨q, hq, rfl⟩ := Option.map_eq_some_iff.mp hp
      have hlist : ("\"" ++ v ++ "\"").toList = '"' :: (v.toList ++ ['"']) := by simp
      rw [hlist, Text.cutFirst?, if_neg (by decide)] at hq
      obtain ⟨s, -, rfl⟩ := Option.map_eq_some_iff.mp hq
      -- what is in front of the equals sign begins with the quote
      refine absurd ?_ ((Category.isPlain_key c).not_mem (.inl rfl))
      rw [hkey, String.toList_ofList]
      exact List.mem_cons_self
  next hn =>
    have heq : '=' ∉ v.toList := by
      intro h
      exact hn (List.any_eq_true.mpr ⟨'=', h, by decide⟩)
    rw [cutCategory?, Text.cut?_eq_none heq, Option.bind_none]

/-- A value without a key names a rule of no category. -/
theorem named_ofValue (apply : Option Bool) (hv : '"' ∉ v.toList) :
    named apply (Token.ofValue v) = { rule := some v, apply } := by
  rw [named, cutCategory?_ofValue]
  show RuleLink.mk _ (some (Token.toValue (Token.ofValue v))) _ = _
  rw [Token.toValue_ofValue hv]

/-- The token that names a rule is read as its category, if one was given, and its canonical name. -/
theorem named_target (category : Option Category) (apply : Option Bool) (hne : rule ≠ "")
    (hr : '"' ∉ rule.toList) :
    named apply (target category rule).2 =
      { category, rule := some (canonicalName category rule), apply } := by
  have hquote := not_mem_canonicalName category (.inl rfl) hr
  cases category with
  | some c =>
    rw [target_some]
    exact named_toToken apply c (canonicalName_ne_empty (some c) hne) hquote
  | none =>
    rw [target_none]
    dsimp only
    exact named_ofValue apply hquote

/-- The token that names a rule is whole, and does not tell whether a condition is applied. -/
theorem isWhole_target (category : Option Category) (hne : rule ≠ "") (hr : '"' ∉ rule.toList) :
    Token.IsWhole (target category rule).2 ∧
      (target category rule).2 ≠ "apply=false" ∧ (target category rule).2 ≠ "apply=true" := by
  have hquote := not_mem_canonicalName category (.inl rfl) hr
  have hname := canonicalName_ne_empty category hne
  cases category with
  | some c =>
    have hsound : (Entry.mk c.key (canonicalName (some c) rule)).IsSound :=
      Entry.isSound_mk (Category.isPlain_key c).1 hquote
    have hkey : c.key ≠ "apply" := by cases c <;> decide
    have other : ∀ t w : String, Entry.ofToken? t = some ⟨"apply", w⟩ →
        (Entry.mk c.key (canonicalName (some c) rule)).toToken ≠ t := by
      intro t w hentry he
      rw [← he, Entry.ofToken?_toToken hsound] at hentry
      exact hkey (congrArg Entry.key (Option.some.inj hentry))
    rw [target_some]
    exact ⟨Entry.isWhole_toToken hsound, other _ "false" (by decide), other _ "true" (by decide)⟩
  | none =>
    -- a name that reads as an entry is put in quotes
    have other : ∀ t : String, Token.toValue t = t → Token.ofValue t ≠ t →
        Token.ofValue (canonicalName none rule) ≠ t := by
      intro t htt hquoted he
      have hvt := Token.toValue_ofValue hquote
      rw [he, htt] at hvt
      rw [← hvt] at he
      exact hquoted he
    rw [target_none]
    dsimp only
    exact ⟨Token.isWhole_ofValue hname hquote, other _ (by decide) (by decide),
      other _ (by decide) (by decide)⟩

/-- A body that names a rule with one token is read as what the token says. -/
theorem read_tokens {token : String} (whole : Token.IsWhole token) (hfalse : token ≠ "apply=false")
    (htrue : token ≠ "apply=true") (withheld : Bool) :
    read (Text.spaced (tokens withheld token)) =
      named (if withheld then some false else none) token := by
  have hwhole : ∀ t ∈ tokens withheld token, Token.IsWhole t := by
    intro t ht
    rcases List.mem_cons.mp ht with rfl | ht
    · exact whole
    · split at ht
      · rw [List.mem_singleton.mp ht]
        decide
      · cases ht
  -- the last token tells about a condition if it is one of two words, and the name is neither
  have hcut : cutApply (tokens withheld token) =
      ([token], if withheld then some false else none) := by
    cases withheld
    · show cutApply [token] = ([token], none)
      unfold cutApply
      split
      next he => exact absurd (Option.some.inj he) hfalse
      next he => exact absurd (Option.some.inj he) htrue
      · rfl
    · rfl
  have hone : Text.spaced [token] = token := String.intercalate_singleton
  rw [read, Token.split_spaced hwhole, hcut]
  dsimp only
  rw [hone, if_neg whole.1]
  rfl

/-! ### The whole text -/

/-- What the canonical text of a link to a rule says: its category if one was given, the canonical name
of the rule, and for a condition whether it is not to be applied. -/
def recovered (r : RuleLink) (rule : String) : RuleLink :=
  { category := r.category
    rule := some (canonicalName r.category rule)
    apply :=
      if r.apply = some false ∧ linkedCategory r.category rule = some .condition then some false
      else none }

/-- The body of a link to a rule is read back as what the link says. -/
theorem read_body (h : Text.filled r.rule = some rule) (hr : '"' ∉ rule.toList) :
    read r.body = r.recovered rule := by
  have hne := (Text.filled_eq_some.mp h).2
  obtain ⟨whole, hfalse, htrue⟩ := isWhole_target r.category hne hr
  rw [body_some h, read_tokens whole hfalse htrue, named_target _ _ hne hr, withholds_target,
    recovered]
  simp only [decide_eq_true_eq]

/-- What is read of the body of a link has the same body. -/
theorem body_recovered (h : Text.filled r.rule = some rule) : (r.recovered rule).body = r.body := by
  have hne := canonicalName_ne_empty r.category (Text.filled_eq_some.mp h).2
  have hname : Text.filled (r.recovered rule).rule = some (canonicalName r.category rule) :=
    Text.filled_eq_some.mpr ⟨rfl, hne⟩
  have htarget : target (r.recovered rule).category (canonicalName r.category rule) =
      target r.category rule := target_canonicalName r.category rule
  have hwithholds : (r.recovered rule).withholds (target r.category rule) =
      r.withholds (target r.category rule) := by
    rw [withholds_target, withholds, fst_target]
    cases hl : linkedCategory r.category rule <;> simp [recovered, hl]
  rw [body_some hname, htarget, hwithholds, body_some h]

/-- The body of a rule link holds no closing bracket that the rule does not hold. -/
theorem closed_body (h : ∀ s ∈ r.texts, ']' ∉ s.toList) : ']' ∉ r.body.toList := by
  cases hf : Text.filled r.rule with
  | none =>
    rw [body_none hf]
    decide
  | some rule =>
    have hrule : rule ∈ r.texts := Option.mem_toList.mpr (Text.filled_eq_some.mp hf).1
    have hname := not_mem_canonicalName r.category (.inr rfl) (h rule hrule)
    have htarget : ']' ∉ (target r.category rule).2.toList := by
      cases hcategory : r.category with
      | some c =>
        rw [hcategory] at hname
        rw [target_some]
        exact Entry.not_mem_toToken (Category.isPlain_key c).2.2 hname
      | none =>
        rw [hcategory] at hname
        rw [target_none]
        dsimp only
        exact Token.not_mem_ofValue hname
    rw [body_some hf]
    refine Token.not_mem_spaced (by decide) fun t ht => ?_
    rcases List.mem_cons.mp ht with rfl | ht
    · exact htarget
    · split at ht
      · rw [List.mem_singleton.mp ht]
        decide
      · cases ht

/-- The canonical text of a link to a rule is read as that link, with the canonical name of the rule, and
the link that is read has the same canonical text. The rule may have any name that can stand between
quotes. -/
theorem first?_write_link (hrule : r.rule = some rule) (hne : rule ≠ "")
    (h : Token.IsQuotable rule) :
    Occurrence.first? (Command.write .reference (.link r)) =
        some (Occurrence.whole .reference (.link (r.recovered rule))
          (Command.write .reference (.link r))) ∧
      Command.write .reference (.link (r.recovered rule)) = Command.write .reference (.link r) := by
  have hf : Text.filled r.rule = some rule := Text.filled_eq_some.mpr ⟨hrule, hne⟩
  have hclosed : ∀ s ∈ r.texts, ']' ∉ s.toList := by
    intro s hs
    obtain rfl : rule = s := Option.some.inj (hrule.symm.trans (Option.mem_toList.mp hs))
    exact h.2
  have hfound := Occurrence.first?_enclosed (closed_body hclosed)
  rw [read_body hf h.1] at hfound
  exact ⟨hfound, congrArg enclosed (body_recovered hf)⟩

/-- A name that looks like a category with a rule and like the end of a link. -/
def proneWithheld : RuleLink :=
  { category := some .condition
    rule := some "condition=prone  apply=false"
    apply := some false }

/-- The name comes back whole, and the condition is still withheld. -/
theorem first?_write_proneWithheld :
    proneWithheld.rule = some "condition=prone  apply=false" ∧
      "condition=prone  apply=false" ≠ "" ∧ Token.IsQuotable "condition=prone  apply=false" ∧
      Occurrence.first? (Command.write .reference (.link proneWithheld)) =
        some (Occurrence.whole .reference (.link proneWithheld)
          "&Reference[condition=\"condition=prone  apply=false\" apply=false]") ∧
      Command.write .reference (.link (proneWithheld.recovered "condition=prone  apply=false")) =
        Command.write .reference (.link proneWithheld) := by
  have hne : "condition=prone  apply=false" ≠ "" := by decide
  have hquotable : Token.IsQuotable "condition=prone  apply=false" := by decide
  obtain ⟨hfound, hagain⟩ := first?_write_link (r := proneWithheld) rfl hne hquotable
  exact ⟨rfl, hne, hquotable, hfound, hagain⟩

end RuleLink

end RollMarkup
