import Mathlib
import RollMarkup.Proofs.Document.Enclosed
import RollMarkup.Proofs.Field.Values
import RollMarkup.Proofs.Token.Entry

/-!
# Item links are read as they were written

The activity behind an identifier is found again, with quotes around it or without
(`read_identified`). Behind a name only an activity in quotes is, but the text is the same either way
(`row_read_words`).
-/

namespace RollMarkup

namespace Item

variable {i : Item}

/-- The texts that an item link is made of. -/
def texts (i : Item) : List String :=
  i.name.toList ++ i.activity.toList ++ i.uuid.toList ++ i.relativeId.toList

theorem mem_texts {s : String} :
    s ∈ i.texts ↔ s ∈ i.name ∨ s ∈ i.activity ∨ s ∈ i.uuid ∨ s ∈ i.relativeId := by
  simp only [texts, List.mem_append, Option.mem_toList, Option.mem_def, or_assoc]

/-- An item is named by an identifier that is not empty, or else by its name. -/
theorem mem_identifier? {s : String} (h : i.identifier? = some s) :
    s ≠ "" ∧ (s ∈ i.uuid ∨ s ∈ i.relativeId ∨
      Text.filled i.uuid = none ∧ Text.filled i.relativeId = none ∧ s ∈ i.name) := by
  rcases Option.or_eq_some_iff.mp h with h | ⟨hnone, h⟩
  · rcases Option.or_eq_some_iff.mp h with h | ⟨-, h⟩
    · exact ⟨(Text.filled_eq_some.mp h).2, .inl (Text.filled_eq_some.mp h).1⟩
    · exact ⟨(Text.filled_eq_some.mp h).2, .inr (.inl (Text.filled_eq_some.mp h).1)⟩
  · obtain ⟨huuid, hrel⟩ := Option.or_eq_none_iff.mp hnone
    exact ⟨(Text.filled_eq_some.mp h).2, .inr (.inr ⟨huuid, hrel, (Text.filled_eq_some.mp h).1⟩)⟩

/-! ### The activity behind the item -/

/-- The token of the activity behind the tokens that name the item. -/
def activityToken (i : Item) : Option String :=
  (Text.filled i.activity).map Token.ofValue

/-- A token is quoted exactly if it is a text between two quotes. -/
theorem isQuoted_iff {t : String} : isQuoted t = true ↔ ∃ v : String, t = "\"" ++ v ++ "\"" := by
  constructor
  · intro h
    unfold isQuoted at h
    split at h
    next cs hcs =>
      obtain ⟨ds, hds⟩ := List.getLast?_eq_some_iff.mp (of_decide_eq_true h)
      refine ⟨String.ofList ds, String.toList_inj.mp ?_⟩
      simp [hcs, hds]
    · cases h
  · rintro ⟨v, rfl⟩
    simp [isQuoted]

/-- A token without a quote is not quoted. -/
theorem isQuoted_of_no_quote {t : String} (h : '"' ∉ t.toList) : isQuoted t = false := by
  rw [Bool.eq_false_iff, Ne, isQuoted_iff]
  rintro ⟨v, rfl⟩
  simp at h

/-- A token without quotes around it is its own value. -/
theorem toValue_of_not_isQuoted {t : String} (h : isQuoted t = false) : Token.toValue t = t := by
  unfold isQuoted at h
  rw [Token.toValue, Token.unquoteChars.eq_def]
  split
  next cs hcs =>
    rw [hcs] at h
    rw [if_neg (of_decide_eq_false h), ← hcs, String.ofList_toList]
  · exact String.ofList_toList

/-- A written value is quoted if it needs quotes. -/
theorem isQuoted_ofValue {v : String} (hv : '"' ∉ v.toList) :
    isQuoted (Token.ofValue v) = Token.needsQuotes v := by
  unfold Token.ofValue
  split
  next hneeds => rw [hneeds, isQuoted_iff.mpr ⟨v, rfl⟩]
  next hneeds => rw [isQuoted_of_no_quote hv, Bool.eq_false_iff.mpr hneeds]

/-- The last of several tokens is cut off as the activity if it is in quotes. -/
theorem cutActivity_concat {ts : List String} (hne : ts ≠ []) (t : String) :
    cutActivity (ts ++ [t]) =
      if isQuoted t then (ts, some (Token.toValue t)) else (ts ++ [t], none) := by
  have hlen : 1 < (ts ++ [t]).length := by
    have hpos := List.length_pos_iff.mpr hne
    rw [List.length_append, List.length_singleton]
    omega
  unfold cutActivity
  rw [List.getLast?_concat]
  dsimp only
  rw [List.dropLast_concat]
  by_cases hq : isQuoted t = true
  · rw [if_pos ⟨hlen, hq⟩, if_pos hq]
  · rw [if_neg fun h => hq h.2, if_neg hq]

/-- Where nothing is in quotes, no activity is cut off. -/
theorem cutActivity_of_no_quote {ts : List String} (h : ∀ t ∈ ts, '"' ∉ t.toList) :
    cutActivity ts = (ts, none) := by
  unfold cutActivity
  cases hl : ts.getLast? with
  | none => rfl
  | some last =>
    have hq := isQuoted_of_no_quote (h last (List.mem_of_getLast? hl))
    exact if_neg fun hc => Bool.false_ne_true (hq.symm.trans hc.2)

/-- What the tokens of a body are read as. -/
def ofRow (tokens : List String) : Item :=
  ofTokens (cutActivity tokens).2 (cutActivity tokens).1

theorem read_of_split {body : String} {ts : List String} (h : Token.split body = ts) :
    read body = ofRow ts := by
  rw [read, h, ofRow]

theorem ofRow_of_no_quote {ts : List String} (h : ∀ t ∈ ts, '"' ∉ t.toList) :
    ofRow ts = ofTokens none ts := by
  rw [ofRow, cutActivity_of_no_quote h]

/-- The last of several tokens is read as the activity if it is in quotes. -/
theorem ofRow_concat {ts : List String} (hne : ts ≠ []) (t : String) :
    ofRow (ts ++ [t]) =
      if isQuoted t then ofTokens (some (Token.toValue t)) ts else ofTokens none (ts ++ [t]) := by
  rw [ofRow, cutActivity_concat hne]
  split <;> rfl

/-- Behind other tokens an activity is known as one if it needs quotes. -/
theorem ofRow_append {ts : List String} (hne : ts ≠ []) {v : String} (hv : '"' ∉ v.toList) :
    ofRow (ts ++ [Token.ofValue v]) =
      if Token.needsQuotes v then ofTokens (some v) ts else ofTokens none (ts ++ [v]) := by
  rw [ofRow_concat hne, isQuoted_ofValue hv, Token.toValue_ofValue hv]
  split
  · rfl
  next hneeds => rw [Token.ofValue, if_neg hneeds]

/-- Tokens that are not quoted are joined as they are. -/
theorem valueText_of_not_isQuoted {ts : List String} (h : ∀ t ∈ ts, isQuoted t = false) :
    valueText ts = Text.spaced ts := by
  have hmap : ts.map Token.toValue = ts := by
    rw [List.map_congr_left fun t ht => toValue_of_not_isQuoted (h t ht), List.map_id']
  rw [valueText, hmap]

theorem valueText_of_no_quote {ts : List String} (h : ∀ t ∈ ts, '"' ∉ t.toList) :
    valueText ts = Text.spaced ts :=
  valueText_of_not_isQuoted fun t ht => isQuoted_of_no_quote (h t ht)

/-- Whether a token is an identifier that an activity may follow without quotes. -/
def isIdentifier (t : String) : Bool :=
  isUuid t || t.toList.head? = some '.'

/-- The link to an item with this identifier. -/
def ofIdentifier (t : String) (activity : Option String) : Item :=
  if isUuid t then { uuid := some t, activity } else { relativeId := some t, activity }

/-- Behind an identifier, all the other tokens together are the activity, unless one was cut off
before. -/
theorem ofTokens_identifier {t : String} (h : isIdentifier t = true) (activity : Option String)
    (ts : List String) :
    ofTokens activity (t :: ts) =
      ofIdentifier t (activity.or (Text.filled? (valueText ts))) := by
  rw [ofTokens, ofIdentifier]
  by_cases hu : isUuid t = true
  · rw [if_pos hu, if_pos hu]
  · have hdot : t.toList.head? = some '.' := by simpa [isIdentifier, hu] using h
    rw [if_neg hu, if_neg hu, if_pos hdot]

/-- The link to an identifier is named by it. -/
theorem identifier?_ofIdentifier {t : String} (h : t ≠ "") (activity : Option String) :
    (ofIdentifier t activity).identifier? = some t := by
  have ht : Text.filled (some t) = some t := Text.filled_eq_some.mpr ⟨rfl, h⟩
  unfold ofIdentifier
  split
  · show ((Text.filled (some t)).or _).or _ = _
    rw [ht, Option.some_or, Option.some_or]
  · show (Text.filled (some t)).or _ = _
    rw [ht, Option.some_or]

/-- The link to an identifier keeps the activity. -/
theorem activity_ofIdentifier (t : String) (activity : Option String) :
    (ofIdentifier t activity).activity = activity := by
  unfold ofIdentifier
  split <;> rfl

/-- What the item is named by: the first token if it says enough, and else all of them. -/
theorem identifier?_ofTokens {w : String} (hw : w ≠ "") (activity : Option String) (ws : List String) :
    (ofTokens activity (w :: ws)).identifier? =
      if isIdentifier w = true ∨ ws = [] ∧ isPlainId w = true then some w
      else Text.filled? (valueText (w :: ws)) := by
  by_cases hid : isIdentifier w = true
  · rw [ofTokens_identifier hid, identifier?_ofIdentifier hw, if_pos (.inl hid)]
  · rw [isIdentifier, Bool.or_eq_true, decide_eq_true_eq, not_or] at hid
    rw [ofTokens, if_neg hid.1, if_neg hid.2]
    by_cases hlone : ws = [] ∧ isPlainId w = true
    · rw [if_pos hlone, if_pos (.inr hlone)]
      show (Text.filled (some w)).or _ = _
      rw [Text.filled_eq_some.mpr ⟨rfl, hw⟩, Option.some_or]
    · rw [if_neg hlone, if_neg (by simpa [isIdentifier, hid.1, hid.2] using hlone)]
      rfl

/-- An activity may follow an identifier; other words take what follows them for more of the name. -/
theorem activity_ofTokens (activity : Option String) (w : String) (ws : List String) :
    (ofTokens activity (w :: ws)).activity =
      if isIdentifier w then activity.or (Text.filled? (valueText ws)) else activity := by
  by_cases hid : isIdentifier w = true
  · rw [ofTokens_identifier hid, activity_ofIdentifier, if_pos hid]
  · rw [if_neg hid]
    rw [isIdentifier, Bool.or_eq_true, decide_eq_true_eq, not_or] at hid
    rw [ofTokens, if_neg hid.1, if_neg hid.2]
    split <;> rfl

/-- Words of which the first is no identifier name the item together, whether they are taken for a name
or for a relative identifier. -/
theorem ofTokens_words {w : String} {ws : List String} (hid : isIdentifier w = false) (hw : w ≠ "")
    (hq : ∀ v ∈ w :: ws, '"' ∉ v.toList) (activity : Option String) :
    (ofTokens activity (w :: ws)).identifier? = some (Text.spaced (w :: ws)) ∧
      (ofTokens activity (w :: ws)).activity = activity := by
  refine ⟨?_, by rw [activity_ofTokens, hid]; rfl⟩
  rw [identifier?_ofTokens hw, valueText_of_no_quote hq, hid]
  split
  next hlone =>
    obtain ⟨rfl, -⟩ := hlone.resolve_left Bool.false_ne_true
    rw [Text.spaced, String.intercalate_singleton]
  · exact if_neg (Token.spaced_ne_empty hw ws)

/-- Behind an identifier the activity is read, with quotes around it or without. -/
theorem ofRow_identified {t : String} (h : isIdentifier t = true) (hq : '"' ∉ t.toList)
    {activity : Option String} (ha : ∀ v ∈ activity, v ≠ "" ∧ '"' ∉ v.toList) :
    ofRow (t :: (activity.map Token.ofValue).toList) = ofIdentifier t activity := by
  have hts : ∀ u ∈ [t], '"' ∉ u.toList := by simpa using hq
  cases activity with
  | none =>
    show ofRow [t] = _
    rw [ofRow_of_no_quote hts, ofTokens_identifier h]
    rfl
  | some v =>
    obtain ⟨hne, hv⟩ := ha v rfl
    show ofRow ([t] ++ [Token.ofValue v]) = _
    rw [ofRow_append (List.cons_ne_nil t []) hv]
    split
    · rw [ofTokens_identifier h]
      rfl
    · have htext : Text.filled? (valueText [v]) = some v := by
        rw [valueText_of_no_quote (by simpa using hv), Text.spaced, String.intercalate_singleton]
        exact if_neg hne
      show ofTokens none (t :: [v]) = _
      rw [ofTokens_identifier h, htext, Option.none_or]

/-- An activity is one token of its own. -/
theorem isWhole_activity {activity : Option String}
    (ha : ∀ v ∈ activity, v ≠ "" ∧ '"' ∉ v.toList) :
    ∀ t ∈ activity.map Token.ofValue, Token.IsWhole t :=
  Option.forall_mem_map.mpr fun v hv => Token.isWhole_ofValue (ha v hv).1 (ha v hv).2

theorem isWhole_append_activity {ts : List String} (hts : ∀ t ∈ ts, Token.IsWhole t)
    {activity : Option String} (ha : ∀ v ∈ activity, v ≠ "" ∧ '"' ∉ v.toList) :
    ∀ t ∈ ts ++ (activity.map Token.ofValue).toList, Token.IsWhole t :=
  List.forall_mem_append.mpr
    ⟨hts, fun t ht => isWhole_activity ha t (Option.mem_toList.mp ht)⟩

/-- The row of an identifier and the activity behind it is read as both of them. -/
theorem read_identified {t : String} (h : isIdentifier t = true) (hw : Token.IsWhole t)
    (hq : '"' ∉ t.toList) {activity : Option String}
    (ha : ∀ v ∈ activity, v ≠ "" ∧ '"' ∉ v.toList) :
    (∀ u ∈ t :: (activity.map Token.ofValue).toList, Token.IsWhole u) ∧
      read (Text.spaced (t :: (activity.map Token.ofValue).toList)) =
        ofIdentifier t activity := by
  have hwhole : ∀ u ∈ t :: (activity.map Token.ofValue).toList, Token.IsWhole u :=
    isWhole_append_activity (List.forall_mem_singleton.mpr hw) ha
  refine ⟨hwhole, ?_⟩
  rw [read_of_split (Token.split_spaced hwhole), ofRow_identified h hq ha]

/-- The parts of an item link make up this row of tokens. -/
theorem row_of_identifier? {ts : List String} (hid : i.identifier? = some (Text.spaced ts))
    (hts : ∀ t ∈ ts, Token.IsWhole t) (hact : ∀ t ∈ i.activityToken, Token.IsWhole t) :
    Text.spaced (i.parts.filter (· ≠ "")) = Text.spaced (ts ++ i.activityToken.toList) := by
  rw [parts, hid]
  refine Token.spaced_filter_cons hts fun t ht => hact t (Option.mem_toList.mp ht)

/-- Words that name the item, and an activity in quotes behind them: what is read has the same
words and the same activity. -/
theorem row_ofTokens {w : String} {ws : List String} (hid : isIdentifier w = false)
    (hws : ∀ v ∈ w :: ws, Token.IsWhole v) (hq : ∀ v ∈ w :: ws, '"' ∉ v.toList)
    (activity : Option String) (ha : ∀ v ∈ activity, v ≠ "" ∧ '"' ∉ v.toList) :
    Text.spaced ((ofTokens activity (w :: ws)).parts.filter (· ≠ "")) =
      Text.spaced (w :: ws ++ (activity.map Token.ofValue).toList) := by
  obtain ⟨hidentifier, hactivity⟩ :=
    ofTokens_words hid (hws w List.mem_cons_self).1 hq activity
  have hfilled : Text.filled activity = activity := by
    cases activity with
    | none => rfl
    | some v => exact Text.filled_eq_some.mpr ⟨rfl, (ha v rfl).1⟩
  have htoken : (ofTokens activity (w :: ws)).activityToken = activity.map Token.ofValue := by
    rw [activityToken, hactivity, hfilled]
  have hrow := row_of_identifier? hidentifier hws (by rw [htoken]; exact isWhole_activity ha)
  rwa [htoken] at hrow

/-- Words that name the item, and an activity behind them: what is read makes up the same row. -/
theorem row_read_words {w : String} {ws : List String} (hid : isIdentifier w = false)
    (hws : ∀ v ∈ w :: ws, Token.IsWhole v) (hq : ∀ v ∈ w :: ws, '"' ∉ v.toList)
    {activity : Option String} (ha : ∀ v ∈ activity, v ≠ "" ∧ '"' ∉ v.toList) :
    (∀ t ∈ w :: ws ++ (activity.map Token.ofValue).toList, Token.IsWhole t) ∧
      Text.spaced ((read (Text.spaced (w :: ws ++
        (activity.map Token.ofValue).toList))).parts.filter (· ≠ "")) =
        Text.spaced (w :: ws ++ (activity.map Token.ofValue).toList) := by
  have hwhole : ∀ t ∈ w :: ws ++ (activity.map Token.ofValue).toList, Token.IsWhole t :=
    isWhole_append_activity hws ha
  refine ⟨hwhole, ?_⟩
  rw [read_of_split (Token.split_spaced hwhole)]
  cases activity with
  | none =>
    rw [Option.map_none, Option.toList_none, List.append_nil, ofRow_of_no_quote hq]
    have hrow := row_ofTokens hid hws hq none (by simp)
    simpa using hrow
  | some v =>
    obtain ⟨hne, hv⟩ := ha v rfl
    show Text.spaced ((ofRow (w :: ws ++ [Token.ofValue v])).parts.filter (· ≠ "")) =
      Text.spaced (w :: ws ++ [Token.ofValue v])
    rw [ofRow_append (List.cons_ne_nil w ws) hv]
    split
    · exact row_ofTokens hid hws hq _ ha
    next hneeds =>
      -- without quotes the activity is one more word
      have hof : Token.ofValue v = v := if_neg hneeds
      have hws' : ∀ u ∈ w :: (ws ++ [v]), Token.IsWhole u := by
        have hall : ∀ u ∈ w :: ws ++ [Token.ofValue v], Token.IsWhole u := hwhole
        rwa [hof] at hall
      have hq' : ∀ u ∈ w :: (ws ++ [v]), '"' ∉ u.toList := by
        intro u hu
        rcases List.mem_append.mp (show u ∈ w :: ws ++ [v] from hu) with hu | hu
        · exact hq u hu
        · rwa [List.mem_singleton.mp hu]
      have hrow := row_ofTokens hid hws' hq' none (by simp)
      rw [hof]
      simpa using hrow

/-! ### The whole text -/

/-- No part of the body holds a closing bracket that the identifier and the activity do not hold. -/
theorem closed_of_identifier? (hid : ∀ s ∈ i.identifier?, ']' ∉ s.toList)
    (ha : ∀ a ∈ i.activity, ']' ∉ a.toList) : ∀ p ∈ i.parts, ']' ∉ p.toList := by
  intro p hp
  unfold parts at hp
  split at hp
  · cases hp
  next id heq =>
    rcases List.mem_cons.mp hp with rfl | hp
    · exact hid p heq
    · obtain ⟨v, hv, rfl⟩ := Option.map_eq_some_iff.mp (Option.mem_toList.mp hp)
      exact Token.not_mem_ofValue (ha v (Text.filled_eq_some.mp hv).1)

/-- No part of the body holds a closing bracket that the item link does not hold. -/
theorem closed_parts (h : ∀ s ∈ i.texts, ']' ∉ s.toList) : ∀ p ∈ i.parts, ']' ∉ p.toList := by
  have hmem := fun s hs => h s (mem_texts.mpr hs)
  refine closed_of_identifier? (fun s hs => ?_) fun a ha => hmem a (.inr (.inl ha))
  rcases (mem_identifier? hs).2 with hs | hs | ⟨-, -, hs⟩
  · exact hmem s (.inr (.inr (.inl hs)))
  · exact hmem s (.inr (.inr (.inr hs)))
  · exact hmem s (.inl hs)

/-- The canonical text of an item link is found as a whole, if no text in it closes the brackets. -/
theorem isReadable (h : ∀ s ∈ i.texts, ']' ∉ s.toList) : Command.IsReadable .item (.item i) :=
  Occurrence.isReadable_of_closed (by decide) rfl (closed_parts h)

/-! ### Item links that their text tells -/

/-- What the canonical text of an item link says: of several identifiers the most definite alone. -/
def settled (i : Item) : Item :=
  match Text.filled i.uuid, Text.filled i.relativeId with
  | some u, _ => { uuid := some u, activity := i.activity }
  | none, some r => { relativeId := some r, activity := i.activity }
  | none, none => { name := i.name, activity := i.activity }

/-- An item link that its canonical text tells: by a uuid, by a relative identifier that is a word, or by
a name of several words, which an activity follows in quotes only. -/
structure IsPlain (i : Item) : Prop where
  activity : ∀ a ∈ i.activity, a ≠ "" ∧ Token.IsQuotable a
  uuid : ∀ u ∈ Text.filled i.uuid, isUuid u = true
  relativeId : Text.filled i.uuid = none →
    ∀ r ∈ Text.filled i.relativeId, Token.IsSolid r ∧ r.toList.head? = some '.'
  name : Text.filled i.uuid = none → Text.filled i.relativeId = none →
    (∃ w ws, i.name = some (Text.spaced (w :: ws)) ∧ ws ≠ [] ∧ isIdentifier w = false ∧
      ∀ v ∈ w :: ws, Token.IsSolid v) ∧ ∀ a ∈ i.activity, Token.needsQuotes a = true

/-- The parts of a uuid around its two fixed words. -/
theorem exists_of_isUuid {u : String} (h : isUuid u = true) :
    ∃ actor item, isAlphanumeric actor = true ∧ isAlphanumeric item = true ∧
      u.toList = "Actor.".toList ++ actor ++ ".Item.".toList ++ item := by
  have hword : ∀ {cs : List Char} {s : String}, String.ofList cs = s → cs = s.toList := by
    rintro cs s rfl
    rw [String.toList_ofList]
  unfold isUuid at h
  split at h
  next a actor b item hsplit =>
    simp only [Bool.and_eq_true, beq_iff_eq] at h
    obtain ⟨⟨⟨ha, hactor⟩, hb⟩, hitem⟩ := h
    refine ⟨actor, item, hactor, hitem, ?_⟩
    have hjoined : ['.'].intercalate (u.toList.splitOn '.') = u.toList :=
      List.intercalate_splitOn '.'
    rw [← hjoined, hsplit, hword ha, hword hb]
    simp [List.intercalate_cons_cons]
  · cases h

/-- A uuid is made of letters, digits and dots. -/
theorem isSolid_of_isUuid {u : String} (h : isUuid u = true) : Token.IsSolid u := by
  obtain ⟨actor, item, hactor, hitem, hu⟩ := exists_of_isUuid h
  have halphanum : ∀ {cs : List Char}, isAlphanumeric cs = true → ∀ c ∈ cs,
      Text.isBlank c = false ∧ c ≠ '"' ∧ c ≠ ']' := by
    intro cs hcs c hc
    have hchar := List.all_eq_true.mp (Bool.and_eq_true_iff.mp hcs).2 c hc
    refine ⟨Text.isBlank_of_isAlphanum hchar, ?_, ?_⟩
    all_goals
      rintro rfl
      cases hchar
  refine ⟨?_, fun c hc => ?_⟩
  · rintro rfl
    cases h
  · rw [hu, List.mem_append, List.mem_append, List.mem_append] at hc
    have hactorWord : Token.IsSolid "Actor." := by decide
    have hitemWord : Token.IsSolid ".Item." := by decide
    rcases hc with ((hc | hc) | hc) | hc
    · exact hactorWord.2 c hc
    · exact halphanum hactor c hc
    · exact hitemWord.2 c hc
    · exact halphanum hitem c hc

/-- A uuid does not begin with a dot. -/
theorem head?_of_isUuid {u : String} (h : isUuid u = true) : u.toList.head? = some 'A' := by
  obtain ⟨actor, item, -, -, hu⟩ := exists_of_isUuid h
  rw [hu]
  rfl

/-- A plain item has no empty activity. -/
theorem IsPlain.filled_activity (h : i.IsPlain) : Text.filled i.activity = i.activity := by
  cases ha : i.activity with
  | none => rfl
  | some a => exact Text.filled_eq_some.mpr ⟨rfl, (h.activity a ha).1⟩

theorem IsPlain.no_quote (h : i.IsPlain) : ∀ a ∈ i.activity, a ≠ "" ∧ '"' ∉ a.toList :=
  fun a ha => ⟨(h.activity a ha).1, (h.activity a ha).2.1⟩

theorem IsPlain.closed (h : i.IsPlain) : ∀ a ∈ i.activity, ']' ∉ a.toList :=
  fun a ha => (h.activity a ha).2.2

/-- An item link with an identifier is found by it, with the activity behind it. -/
theorem IsPlain.first?_identified (h : i.IsPlain) {t : String} (hid : i.identifier? = some t)
    (hlook : isIdentifier t = true) (hsolid : Token.IsSolid t) :
    Occurrence.first? (Command.write .item (.item i)) =
      some (Occurrence.whole .item (.item (ofIdentifier t i.activity))
        (Command.write .item (.item i))) := by
  have hparts : i.parts = t :: (i.activity.map Token.ofValue).toList := by
    rw [parts, hid, h.filled_activity]
  obtain ⟨hwhole, hread⟩ := read_identified hlook hsolid.isWhole hsolid.isQuotable.1 h.no_quote
  rw [← hparts] at hwhole hread
  have hclosed : ∀ s ∈ i.identifier?, ']' ∉ s.toList := by
    rw [hid]
    rintro s ⟨⟩
    exact hsolid.isQuotable.2
  exact Occurrence.first?_of_parts (by decide) rfl (closed_of_identifier? hclosed h.closed) hwhole
    (congrArg Command.item hread)

/-- An item link with a name of several words is found by it, if the activity behind it needs quotes. -/
theorem IsPlain.first?_named (h : i.IsPlain) {w : String} {ws : List String}
    (hid : i.identifier? = some (Text.spaced (w :: ws))) (hws : ws ≠ [])
    (hlook : isIdentifier w = false) (hsolid : ∀ v ∈ w :: ws, Token.IsSolid v)
    (hneeds : ∀ a ∈ i.activity, Token.needsQuotes a = true) :
    Occurrence.first? (Command.write .item (.item i)) =
      some (Occurrence.whole .item
        (.item { name := some (Text.spaced (w :: ws)), activity := i.activity })
        (Command.write .item (.item i))) := by
  have hquote : ∀ v ∈ w :: ws, '"' ∉ v.toList := fun v hv => (hsolid v hv).isQuotable.1
  have hwhole : ∀ v ∈ w :: ws, Token.IsWhole v := fun v hv => (hsolid v hv).isWhole
  have htoken : i.activityToken = i.activity.map Token.ofValue := by
    rw [activityToken, h.filled_activity]
  have hactivity : ∀ t ∈ i.activityToken, Token.IsWhole t := by
    rw [htoken]
    exact isWhole_activity h.no_quote
  have hrow : ∀ t ∈ w :: ws ++ i.activityToken.toList, Token.IsWhole t := by
    rw [htoken]
    exact isWhole_append_activity hwhole h.no_quote
  have hclosed : ∀ s ∈ i.identifier?, ']' ∉ s.toList := by
    rw [hid]
    rintro s ⟨⟩
    exact (Token.isQuotable_spaced fun v hv => (hsolid v hv).isQuotable).2
  -- `w` looks like no identifier and is not alone, so that all the words are the name
  have hname : ∀ activity, ofTokens activity (w :: ws) =
      { name := some (Text.spaced (w :: ws)), activity } := by
    intro activity
    rw [isIdentifier, Bool.or_eq_false_iff, decide_eq_false_iff_not] at hlook
    rw [ofTokens, if_neg (by simp [hlook.1]), if_neg hlook.2, if_neg fun hlone => hws hlone.1,
      valueText_of_no_quote hquote]
  refine Occurrence.first?_of_row (by decide) rfl (closed_of_identifier? hclosed h.closed) hrow
    (row_of_identifier? hid hwhole hactivity) (congrArg Command.item ?_)
  rw [read_of_split (Token.split_spaced hrow), htoken]
  cases ha : i.activity with
  | none =>
    rw [Option.map_none, Option.toList_none, List.append_nil, ofRow_of_no_quote hquote, hname]
  | some a =>
    show ofRow (w :: ws ++ [Token.ofValue a]) = _
    rw [ofRow_append (List.cons_ne_nil w ws) (h.no_quote a ha).2, if_pos (hneeds a ha), hname]

/-- The canonical text of an item link is read as that item link: with the most definite of its
identifiers and the activity. -/
theorem first?_write_item (h : i.IsPlain) :
    Occurrence.first? (Command.write .item (.item i)) =
      some (Occurrence.whole .item (.item i.settled) (Command.write .item (.item i))) := by
  have hid : i.identifier? =
      ((Text.filled i.uuid).or (Text.filled i.relativeId)).or (Text.filled i.name) := rfl
  rw [settled]
  -- the identifier that is written is the first of the three, and is read as what it looks like
  cases huuid : Text.filled i.uuid with
  | some u =>
    have hu := h.uuid u huuid
    rw [huuid, Option.some_or, Option.some_or] at hid
    have hfound := h.first?_identified hid (by rw [isIdentifier, hu, Bool.true_or])
      (isSolid_of_isUuid hu)
    rwa [ofIdentifier, if_pos hu] at hfound
  | none =>
    cases hrel : Text.filled i.relativeId with
    | some r =>
      obtain ⟨hsolid, hdot⟩ := h.relativeId huuid r hrel
      rw [huuid, hrel, Option.none_or, Option.some_or] at hid
      have hfound := h.first?_identified hid (by simp [isIdentifier, hdot]) hsolid
      have hno : ¬isUuid r = true := by
        intro hu
        rw [head?_of_isUuid hu] at hdot
        cases hdot
      rwa [ofIdentifier, if_neg hno] at hfound
    | none =>
      obtain ⟨⟨w, ws, hname, hws, hlook, hsolid⟩, hneeds⟩ := h.name huuid hrel
      have hne := Token.spaced_ne_empty (hsolid w List.mem_cons_self).1 ws
      rw [huuid, hrel, hname, Option.none_or, Option.none_or,
        Text.filled_eq_some.mpr ⟨rfl, hne⟩] at hid
      rw [hname]
      exact h.first?_named hid hws hlook hsolid hneeds

/-- A name of several words, with an activity in quotes behind it. -/
def flameTongue : Item :=
  { name := some "Flame Tongue (Greatsword)"
    activity := some "Ignite  Blade"
    uuid := some "" }

/-- A name of several words comes back with the activity in quotes behind it. -/
theorem first?_write_flameTongue :
    flameTongue.IsPlain ∧
      Occurrence.first? (Command.write .item (.item flameTongue)) =
        some (Occurrence.whole .item (.item { flameTongue with uuid := none })
          "[[/item Flame Tongue (Greatsword) \"Ignite  Blade\"]]") := by
  have h : flameTongue.IsPlain :=
    { activity := by decide
      uuid := by decide
      relativeId := by decide
      name := fun _ _ => ⟨⟨"Flame", ["Tongue", "(Greatsword)"], rfl, by decide, by decide, by decide⟩,
        by decide⟩ }
  exact ⟨h, first?_write_item h⟩

end Item

end RollMarkup
