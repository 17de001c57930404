import Mathlib
import RollMarkup.Document.Finding
import RollMarkup.Proofs.Token.Layout

/-!
# Commands in their brackets

What is found of a command is told by its heading, its body and what stands behind it
(`atHead?_cases`), and a command that stands alone in a text is found as a whole
(`scan_bracketed`, `scan_enclosed`, `scan_text`). A body ends at the first closing bracket, so none
may be in it.
-/

namespace RollMarkup

namespace Text

theorem behind?_append (head rest : List Char) : behind? head (head ++ rest) = some rest :=
  behind?_eq_some_iff.mpr rfl

/-- A text is cut at the first `stop`, if the closing stands there. -/
theorem upTo?_append {stop : Char} {before : List Char} (h : stop ∉ before)
    (closing rest : List Char) :
    upTo? stop (stop :: closing) (before ++ stop :: closing ++ rest) = some (before, rest) := by
  have hb : ∀ c ∈ before, decide (c ≠ stop) = true := by
    intro c hc
    simp only [decide_eq_true_eq]
    rintro rfl
    exact h hc
  have hdrop : (before ++ stop :: closing ++ rest).dropWhile (· ≠ stop)
      = stop :: closing ++ rest := by
    rw [List.append_assoc, List.dropWhile_append_of_pos hb]
    simp
  have htake : (before ++ stop :: closing ++ rest).takeWhile (· ≠ stop) = before := by
    rw [List.append_assoc, List.takeWhile_append_of_pos hb]
    simp
  rw [upTo?, hdrop, htake, behind?_append, Option.map_some]

/-- What stands before the first `stop` does not hold it. -/
theorem not_mem_of_upTo? {stop : Char} {closing cs before rest : List Char}
    (h : upTo? stop closing cs = some (before, rest)) : stop ∉ before := by
  obtain ⟨r, -, h⟩ := Option.map_eq_some_iff.mp h
  obtain ⟨rfl, -⟩ := Prod.mk.inj h
  intro hm
  simpa using List.mem_takeWhile_imp hm

end Text

namespace Heading

/-- No keyword begins another, so what stands behind a keyword does not change what is read. -/
theorem ofChars?_keyword {h : Heading} (hh : h ∈ all) (rest : List Char) :
    ofChars? (h.keyword.toList ++ rest) = some (h, rest) := by
  fin_cases hh <;> rfl

/-- A heading that was read is one of all. -/
theorem mem_all_of_ofChars? {cs rest : List Char} {h : Heading}
    (eq : ofChars? cs = some (h, rest)) : h ∈ all := by
  obtain ⟨g, hg, e⟩ := List.exists_of_findSome?_eq_some eq
  obtain ⟨r, -, e⟩ := Option.map_eq_some_iff.mp e
  obtain ⟨rfl, -⟩ := Prod.mk.inj e
  exact hg

end Heading

namespace Match

/-- A rule link with this body, given what is behind it. -/
def ofLink (body rest : List Char) : Match :=
  { kind := .reference
    command := .link (RuleLink.read (String.ofList body))
    text := linkOpening ++ body ++ [']']
    skipped := []
    rest }

/-- The characters of a command in double brackets. -/
def enclose (h : Heading) (body : List Char) : List Char :=
  opening ++ h.keyword.toList ++ body ++ [']', ']']

/-- A body without a closing bracket is found whole between double brackets. -/
theorem atHead?_enclose {h : Heading} (hh : h ∈ Heading.all) {body : List Char}
    (closed : ']' ∉ body) (rest : List Char) :
    atHead? (enclose h body ++ rest) = some (ofParts h body rest) := by
  have hopened : Text.behind? opening (enclose h body ++ rest)
      = some (h.keyword.toList ++ (body ++ [']', ']'] ++ rest)) := by
    rw [Text.behind?_eq_some_iff]
    simp [enclose]
  have hclosed := Text.upTo?_append closed [']'] rest
  simp only [atHead?, bracketed?, hopened, Option.bind_some, Heading.ofChars?_keyword hh,
    hclosed, Option.map_some, Option.some_or]

/-- A body without a closing bracket is found whole in a rule link. -/
theorem atHead?_link {body : List Char} (closed : ']' ∉ body) (rest : List Char) :
    atHead? (linkOpening ++ body ++ [']'] ++ rest) = some (ofLink body rest) := by
  have hother : bracketed? (linkOpening ++ body ++ [']'] ++ rest) = none := rfl
  have hopened : Text.behind? linkOpening (linkOpening ++ body ++ [']'] ++ rest)
      = some (body ++ [']'] ++ rest) := by
    rw [Text.behind?_eq_some_iff]
    simp
  have hclosed := Text.upTo?_append closed [] rest
  simp only [atHead?, hother, Option.none_or, link?, hopened, Option.bind_some, hclosed,
    Option.map_some, ofLink]

/-- A match is a command in double brackets or a rule link, with a body that holds no closing
bracket. -/
theorem atHead?_cases {cs : List Char} {m : Match} (h : atHead? cs = some m) :
    (∃ hd ∈ Heading.all, ∃ body rest, ']' ∉ body ∧ m = ofParts hd body rest) ∨
      ∃ body rest, ']' ∉ body ∧ m = ofLink body rest := by
  rcases Option.or_eq_some_iff.mp h with h | ⟨-, h⟩
  · left
    obtain ⟨opened, -, h⟩ := Option.bind_eq_some_iff.mp h
    obtain ⟨headed, hh, h⟩ := Option.bind_eq_some_iff.mp h
    obtain ⟨closed, hc, rfl⟩ := Option.map_eq_some_iff.mp h
    exact ⟨headed.1, Heading.mem_all_of_ofChars? hh, closed.1, closed.2,
      Text.not_mem_of_upTo? hc, rfl⟩
  · right
    obtain ⟨opened, -, h⟩ := Option.bind_eq_some_iff.mp h
    obtain ⟨closed, hc, rfl⟩ := Option.map_eq_some_iff.mp h
    exact ⟨closed.1, closed.2, Text.not_mem_of_upTo? hc, rfl⟩

/-- A label without a closing brace is found whole between braces. -/
theorem label?_braced {label : List Char} (h : '\x7d' ∉ label) (behind : List Char) :
    label? (braced label ++ behind) = some (label, behind) := by
  have hu := Text.upTo?_append h [] behind
  exact hu

/-- A label begins with a brace. -/
theorem label?_eq_none {cs : List Char} (h : cs.head? ≠ some '\x7b') : label? cs = none := by
  unfold label?
  split
  · exact absurd rfl h
  · rfl

/-- The label of a text holds no closing brace. -/
theorem not_mem_of_label? {cs label rest : List Char} (h : label? cs = some (label, rest)) :
    '\x7d' ∉ label := by
  unfold label? at h
  split at h
  · exact Text.not_mem_of_upTo? h
  · cases h

section Parts

variable {h : Heading} {body rest label behind : List Char}

/-- Without a label, a command ends at its brackets. -/
theorem ofParts_unlabelled (hl : label? rest = none) :
    ofParts h body rest =
      ⟨h.kind, h.read none (String.ofList (Text.trim body)), enclose h body, [], rest⟩ := by
  simp only [ofParts, hl]
  rfl

/-- A plain dice roll takes the label behind its brackets into its text. -/
theorem ofParts_roll (hl : label? rest = some (label, behind)) (hr : h = .ofKind .roll) :
    ofParts h body rest =
      ⟨h.kind, h.read (some (String.ofList label)) (String.ofList (Text.trim body)),
        enclose h body ++ braced label, [], behind⟩ := by
  simp only [ofParts, hl, hr, if_true]
  rfl

/-- Every other command skips it. -/
theorem ofParts_skipped (hl : label? rest = some (label, behind)) (hr : h ≠ .ofKind .roll) :
    ofParts h body rest =
      ⟨h.kind, h.read none (String.ofList (Text.trim body)), enclose h body, braced label,
        behind⟩ := by
  simp only [ofParts, hl, hr, if_false]
  rfl

end Parts

/-- Found at the head of its own text, a match is the same, if no brace stands behind it. -/
theorem atHead?_text_append {cs behind : List Char} {m : Match} (h : atHead? cs = some m)
    (hbehind : behind.head? ≠ some '\x7b') :
    atHead? (m.text ++ behind) = some { m with skipped := [], rest := behind } := by
  rcases atHead?_cases h with ⟨hd, hh, body, rest, closed, rfl⟩ | ⟨body, rest, closed, rfl⟩
  · have hbare := atHead?_enclose hh closed behind
    rw [ofParts_unlabelled (label?_eq_none hbehind)] at hbare
    cases hl : label? rest with
    | none =>
      rw [ofParts_unlabelled hl]
      exact hbare
    | some p =>
      obtain ⟨label, left⟩ := p
      by_cases hr : hd = .ofKind .roll
      · have hb := label?_braced (not_mem_of_label? hl) behind
        have hlabel := atHead?_enclose hh closed (braced label ++ behind)
        rw [ofParts_roll hb hr, ← List.append_assoc] at hlabel
        rw [ofParts_roll hl hr]
        exact hlabel
      · rw [ofParts_skipped hl hr]
        exact hbare
  · exact atHead?_link closed behind

/-- Found in its own text alone, a match is the same, with nothing behind it. -/
theorem atHead?_text {cs : List Char} {m : Match} (h : atHead? cs = some m) :
    atHead? m.text = some { m with skipped := [], rest := [] } := by
  have hb : ([] : List Char).head? ≠ some '\x7b' := by decide
  have htext := atHead?_text_append h hb
  rwa [List.append_nil] at htext

end Match

namespace Occurrence

/-- A match at the head of a text is its first command. -/
theorem firstChars?_of_atHead? {cs : List Char} {m : Match} (h : Match.atHead? cs = some m)
    (start : Nat) : firstChars? start cs = some (ofMatch start m) := by
  cases cs with
  | nil => cases h
  | cons c cs => simp only [firstChars?, h]

/-- The first command of a text is the match at the head of what is left from there on. -/
theorem firstChars?_eq_some {start : Nat} {cs : List Char} {o : Occurrence}
    (h : firstChars? start cs = some o) :
    ∃ n ds m, Match.atHead? ds = some m ∧ o = ofMatch n m := by
  induction cs generalizing start with
  | nil => cases h
  | cons c cs ih =>
    unfold firstChars? at h
    split at h
    · exact ih h
    next m hm => exact ⟨start, c :: cs, m, hm, (Option.some.inj h).symm⟩

/-- Where no command begins, the search goes on with the next character. -/
theorem scanChars_of_none {c : Char} {cs : List Char} (h : Match.atHead? (c :: cs) = none)
    (start : Nat) : scanChars start (c :: cs) = scanChars (start + c.utf8Size) cs := by
  rw [scanChars]
  split
  · rfl
  next m hm => rw [h] at hm; cases hm

/-- Where a command begins, the search goes on behind it and what it skips. -/
theorem scanChars_of_some {cs : List Char} {m : Match} (h : Match.atHead? cs = some m)
    (start : Nat) :
    scanChars start cs =
      ofMatch start m :: scanChars (start + byteLength m.text + byteLength m.skipped) m.rest := by
  cases cs with
  | nil => cases h
  | cons c cs =>
    rw [scanChars]
    split
    next hn => rw [h] at hn; cases hn
    next m' hm =>
      obtain rfl : m = m' := Option.some.inj (h.symm.trans hm)
      rfl

/-- A text that is one command and nothing else holds that command only. -/
theorem scanChars_of_atHead? {cs : List Char} {m : Match} (h : Match.atHead? cs = some m)
    (hrest : m.rest = []) (start : Nat) : scanChars start cs = [ofMatch start m] := by
  rw [scanChars_of_some h, hrest, scanChars]

/-- A command that was found in a text. -/
def IsFound (o : Occurrence) : Prop :=
  ∃ text, first? text = some o

/-- A command that was found is a match at some place. -/
theorem IsFound.exists_match {o : Occurrence} (h : o.IsFound) :
    ∃ n cs m, Match.atHead? cs = some m ∧ o = ofMatch n m := by
  obtain ⟨text, h⟩ := h
  exact firstChars?_eq_some h

/-- The text of a command that was found holds that command and no other. -/
theorem scan_text {o : Occurrence} (h : o.IsFound) :
    scan o.text = [{ o with start := 0, stop := byteLength o.text.toList }] := by
  obtain ⟨n, cs, m, hm, rfl⟩ := h.exists_match
  have hs := scanChars_of_atHead? (Match.atHead?_text hm) rfl 0
  simp only [ofMatch, Nat.zero_add] at hs
  simp only [scan, ofMatch, String.toList_ofList, hs]

/-! ### Commands as they are written -/

/-- The command that a whole text is, from its first byte to its last. -/
def whole (kind : Kind) (command : Command) (text : String) : Occurrence :=
  { kind, command, text, start := 0, stop := byteLength text.toList }

/-- A text that is matched from its head to its end is found as one command. -/
theorem first?_of_atHead? {text : String} {m : Match} (h : Match.atHead? text.toList = some m)
    (ht : m.text = text.toList) : first? text = some (whole m.kind m.command text) := by
  rw [first?, firstChars?_of_atHead? h, ofMatch, ht, String.ofList_toList, Nat.zero_add]
  rfl

/-- The keyword stands alone or in front of the row, and the row tells which of both. -/
theorem spaced_keyword (keyword : String) {ts : List String} (h : ∀ t ∈ ts, t ≠ "") :
    Text.spaced (keyword :: ts) =
      if Text.spaced ts = "" then keyword else keyword ++ " " ++ Text.spaced ts := by
  cases ts with
  | nil => simp [Text.spaced]
  | cons t ts =>
    rw [if_neg (Token.spaced_ne_empty (h t List.mem_cons_self) ts)]
    exact String.intercalate_cons_cons

/-- What is written in double brackets tells the row that the parts make up, and depends on nothing
else. -/
theorem bracketed_eq_iff {keyword : String} {ps qs : List String} :
    bracketed keyword ps = bracketed keyword qs ↔
      Text.spaced (ps.filter (· ≠ "")) = Text.spaced (qs.filter (· ≠ "")) := by
  have filled : ∀ rs : List String, ∀ r ∈ rs.filter (· ≠ ""), r ≠ "" := by
    intro rs r hr
    simpa using (List.mem_filter.mp hr).2
  rw [bracketed, bracketed, spaced_keyword keyword (filled ps), spaced_keyword keyword (filled qs)]
  generalize Text.spaced (ps.filter (· ≠ "")) = s
  generalize Text.spaced (qs.filter (· ≠ "")) = t
  constructor
  · intro h
    have hbody : (if s = "" then keyword else keyword ++ " " ++ s) =
        if t = "" then keyword else keyword ++ " " ++ t := by
      simpa using h
    -- a keyword with a row behind it is longer than the keyword alone
    have hlonger : ∀ r : String, keyword ++ " " ++ r ≠ keyword := by
      intro r hr
      have hlength := congrArg String.length hr
      have hspace : " ".length = 1 := rfl
      simp only [String.length_append] at hlength
      omega
    split at hbody
    next hs =>
      split at hbody
      next ht => rw [hs, ht]
      · exact absurd hbody.symm (hlonger t)
    · split at hbody
      · exact absurd hbody (hlonger s)
      · simpa using hbody
  · intro h
    rw [h]

/-- Parts that make the same row are written alike in double brackets. -/
theorem bracketed_congr {keyword : String} {ps qs : List String}
    (h : Text.spaced (ps.filter (· ≠ "")) = Text.spaced (qs.filter (· ≠ ""))) :
    bracketed keyword ps = bracketed keyword qs :=
  bracketed_eq_iff.mpr h

/-- What is written in double brackets tells the tokens that its parts are made of. -/
theorem bracketed_eq_iff_of_row {keyword : String} {ps qs ts us : List String}
    (hts : ∀ t ∈ ts, Token.IsWhole t) (hus : ∀ u ∈ us, Token.IsWhole u)
    (row : Text.spaced (ps.filter (· ≠ "")) = Text.spaced ts)
    (row' : Text.spaced (qs.filter (· ≠ "")) = Text.spaced us) :
    bracketed keyword ps = bracketed keyword qs ↔ ts = us := by
  rw [bracketed_eq_iff, row, row']
  constructor
  · intro h
    rw [← Token.split_spaced hts, h, Token.split_spaced hus]
  · exact congrArg Text.spaced

/-- The characters of a command in double brackets: behind the keyword a space and its parts. -/
theorem toList_bracketed (h : Heading) (parts : List String) :
    ∃ body, (bracketed h.keyword parts).toList = Match.enclose h body ∧
      (∀ c ∈ body, c = ' ' ∨ c ∈ (Text.spaced (parts.filter (· ≠ ""))).toList) ∧
      Text.trim body = Text.trim (Text.spaced (parts.filter (· ≠ ""))).toList := by
  cases hp : parts.filter (· ≠ "") with
  | nil =>
    refine ⟨[], ?_, by simp, rfl⟩
    rw [bracketed, hp]
    simp [Match.enclose, Match.opening, Text.spaced]
  | cons q qs =>
    refine ⟨' ' :: (Text.spaced (q :: qs)).toList, ?_, by simp, Text.trim_cons_space _⟩
    rw [bracketed, hp]
    simp [Match.enclose, Match.opening, Text.spaced]

/-- A body made of parts holds no closing bracket if none of them does. -/
theorem not_mem_body {body : List Char} {parts : List String}
    (hmem : ∀ c ∈ body, c = ' ' ∨ c ∈ (Text.spaced (parts.filter (· ≠ ""))).toList)
    (closed : ∀ p ∈ parts, ']' ∉ p.toList) : ']' ∉ body := by
  intro hc
  rcases hmem _ hc with hc | hc
  · exact absurd hc (by decide)
  · exact Token.not_mem_spaced (by decide) (fun t ht => closed t (List.mem_filter.mp ht).1) hc

/-- A command in double brackets is found as a whole, if none of its parts has a closing bracket. -/
theorem first?_bracketed {h : Heading} (hh : h ∈ Heading.all) {parts : List String}
    (closed : ∀ p ∈ parts, ']' ∉ p.toList) :
    first? (bracketed h.keyword parts) =
      some (whole h.kind
        (h.read none (String.ofList (Text.trim (Text.spaced (parts.filter (· ≠ ""))).toList)))
        (bracketed h.keyword parts)) := by
  obtain ⟨body, hbody, hmem, htrim⟩ := toList_bracketed h parts
  have hclosed : ']' ∉ body := not_mem_body hmem closed
  have hm := Match.atHead?_enclose hh hclosed []
  rw [List.append_nil, ← hbody] at hm
  rw [first?_of_atHead? hm (by rw [hbody]; rfl), ← htrim]
  rfl

/-- The body of a command whose parts make up a row of whole tokens is that row. -/
theorem first?_tokens {h : Heading} (hh : h ∈ Heading.all) {parts tokens : List String}
    (closed : ∀ p ∈ parts, ']' ∉ p.toList) (whole : ∀ t ∈ tokens, Token.IsWhole t)
    (row : Text.spaced (parts.filter (· ≠ "")) = Text.spaced tokens) :
    first? (bracketed h.keyword parts) =
      some (Occurrence.whole h.kind (h.read none (Text.spaced tokens))
        (bracketed h.keyword parts)) := by
  rw [first?_bracketed hh closed, row, Token.trim_spaced whole, String.ofList_toList]

/-- A command whose parts are whole tokens is read of the row of them. -/
theorem first?_row {k : Kind} (hk : Heading.ofKind k ∈ Heading.all) {parts : List String}
    (closed : ∀ p ∈ parts, ']' ∉ p.toList) (whole : ∀ p ∈ parts, Token.IsWhole p) :
    first? (bracketed (Keyword.word k) parts) =
      some (Occurrence.whole k (Command.read k none (Text.spaced parts))
        (bracketed (Keyword.word k) parts)) :=
  first?_tokens hk closed whole (congrArg Text.spaced (Token.filter_whole whole))

/-- A command written as plain entries is read of all of them. -/
theorem first?_entries {k : Kind} (hk : Heading.ofKind k ∈ Heading.all) {es : List Entry}
    (h : ∀ e ∈ es, e.IsPlain) :
    first? (bracketed (Keyword.word k) (es.map Entry.toToken)) =
      some (whole k (Command.read k none (Text.spaced (es.map Entry.toToken)))
        (bracketed (Keyword.word k) (es.map Entry.toToken))) := by
  refine first?_row hk (fun t ht => ?_) (Entry.isWhole_map_toToken fun e he => (h e he).isSound)
  obtain ⟨e, he, rfl⟩ := List.mem_map.mp ht
  exact (h e he).closed

/-- A command whose parts have their quotes closed is read of the tokens of each part. -/
theorem first?_of_balanced {h : Heading} (hh : h ∈ Heading.all) {parts : List String}
    (closed : ∀ p ∈ parts, ']' ∉ p.toList) (balanced : ∀ p ∈ parts, Token.IsBalanced p.toList) :
    ∃ body, Token.split body = parts.flatMap Token.split ∧
      first? (bracketed h.keyword parts) =
        some (whole h.kind (h.read none body) (bracketed h.keyword parts)) := by
  have hfilled : ∀ p ∈ parts.filter (· ≠ ""), Token.IsBalanced p.toList :=
    fun p hp => balanced p (List.mem_filter.mp hp).1
  have hempty : (parts.filter (· ≠ "")).flatMap Token.split = parts.flatMap Token.split := by
    clear hfilled balanced closed
    induction parts with
    | nil => rfl
    | cons p ps ih =>
      by_cases hp : p = ""
      · rw [hp, List.filter_cons_of_neg (by simp), ih]
        rfl
      · rw [List.filter_cons_of_pos (by simpa using hp), List.flatMap_cons, List.flatMap_cons, ih]
  refine ⟨_, ?_, first?_bracketed hh closed⟩
  show Token.bodyTokens _ = _
  rw [Token.bodyTokens_eq_split (Token.isBalanced_spaced hfilled),
    Token.split_spaced_of_balanced hfilled, hempty]

end Occurrence

namespace Command

/-- A command whose canonical text is read as a command of the same kind, from its first byte to its
last. -/
def IsReadable (k : Kind) (c : Command) : Prop :=
  ∃ d, Occurrence.first? (c.write k) = some (Occurrence.whole k d (c.write k))

/-- A command whose canonical text is the canonical text of what it is read as. -/
def IsFixed (k : Kind) (c : Command) : Prop :=
  ∃ d, Occurrence.first? (c.write k) = some (Occurrence.whole k d (c.write k)) ∧
    d.write k = c.write k

/-- A command with a fixed canonical text is found there as a whole. -/
theorem IsFixed.isReadable {k : Kind} {c : Command} (h : c.IsFixed k) : c.IsReadable k := by
  obtain ⟨d, hd, -⟩ := h
  exact ⟨d, hd⟩

end Command

namespace Occurrence

section Write

variable {k : Kind} {c : Command} {parts : List String} (hk : Heading.ofKind k ∈ Heading.all)
  (hwrite : c.write k = bracketed (Keyword.word k) parts) (closed : ∀ p ∈ parts, ']' ∉ p.toList)

include hk hwrite closed

/-- A command that is written in double brackets is read as one of its kind. -/
theorem isReadable_of_closed : c.IsReadable k := by
  have hfound := first?_bracketed hk closed
  rw [Command.IsReadable, hwrite]
  exact ⟨_, hfound⟩

variable {d : Command} {tokens : List String} (whole : ∀ t ∈ tokens, Token.IsWhole t)
  (row : Text.spaced (parts.filter (· ≠ "")) = Text.spaced tokens)
  (hread : Command.read k none (Text.spaced tokens) = d)

include whole row hread

/-- A command whose parts make up a row of whole tokens is found as what that row is read as. -/
theorem first?_of_row : first? (c.write k) = some (Occurrence.whole k d (c.write k)) := by
  rw [hwrite, ← hread]
  exact first?_tokens hk closed whole row

/-- A command is fixed if what its row is read as makes up the same row. -/
theorem isFixed_of_row {parts' : List String} (hwrite' : d.write k = bracketed (Keyword.word k) parts')
    (row' : Text.spaced (parts'.filter (· ≠ "")) = Text.spaced tokens) : c.IsFixed k := by
  refine ⟨d, first?_of_row hk hwrite closed whole row hread, ?_⟩
  rw [hwrite, hwrite']
  exact bracketed_congr (row'.trans row.symm)

end Write

/-- A command whose parts are whole tokens is found as what their row is read as. -/
theorem first?_of_parts {k : Kind} {c d : Command} {parts : List String}
    (hk : Heading.ofKind k ∈ Heading.all) (hwrite : c.write k = bracketed (Keyword.word k) parts)
    (closed : ∀ p ∈ parts, ']' ∉ p.toList) (whole : ∀ p ∈ parts, Token.IsWhole p)
    (hread : Command.read k none (Text.spaced parts) = d) :
    first? (c.write k) = some (Occurrence.whole k d (c.write k)) :=
  first?_of_row hk hwrite closed whole (congrArg Text.spaced (Token.filter_whole whole)) hread

/-- A rule link is found as a whole, if its body has no closing bracket. -/
theorem first?_enclosed {body : String} (closed : ']' ∉ body.toList) :
    first? (RuleLink.enclosed body) =
      some (whole .reference (.link (RuleLink.read body)) (RuleLink.enclosed body)) := by
  have hbody : (RuleLink.enclosed body).toList = Match.linkOpening ++ body.toList ++ [']'] := by
    have hstop : "]".toList = [']'] := rfl
    rw [RuleLink.enclosed, String.toList_append, String.toList_append, hstop]
    rfl
  have hm := Match.atHead?_link closed []
  rw [List.append_nil, ← hbody] at hm
  have htext : (Match.ofLink body.toList []).text = (RuleLink.enclosed body).toList := by
    rw [hbody, Match.ofLink]
  rw [first?_of_atHead? hm htext]
  simp only [Match.ofLink, String.ofList_toList]

end Occurrence

end RollMarkup
