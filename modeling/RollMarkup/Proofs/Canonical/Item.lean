import Mathlib
import RollMarkup.Proofs.Command.Item
import RollMarkup.Proofs.Token.Characters

/-!
# Canonical texts of item links

What was read of a body without closing brackets is written without them (`closed_read`). The
canonical text of an item link is read as one with the same canonical text (`isFixed`), where a name
does not begin as an identifier does (`IsLegible`).
-/

namespace RollMarkup

namespace Item

variable {i : Item}

/-! ### What is read -/

/-- The identifiers of an item link that is read are tokens of their own. -/
structure IsRead (i : Item) : Prop where
  uuid : ∀ s ∈ i.uuid, isUuid s = true ∧ ('"' ∉ s.toList → Token.IsWhole s)
  relativeId : ∀ s ∈ i.relativeId, isUuid s = false ∧ ('"' ∉ s.toList → Token.IsWhole s)

theorem closed_valueText {ts : List String} (h : ∀ t ∈ ts, ']' ∉ t.toList) :
    ']' ∉ (valueText ts).toList := by
  refine Token.not_mem_spaced (by decide) fun t ht => ?_
  obtain ⟨u, hu, rfl⟩ := List.mem_map.mp ht
  exact Token.not_mem_toValue (h u hu)

/-- What holds of the text in each field holds of all texts. -/
theorem forall_mem_texts {P : String → Prop} {i : Item} (name : ∀ s ∈ i.name, P s)
    (activity : ∀ s ∈ i.activity, P s) (uuid : ∀ s ∈ i.uuid, P s)
    (relativeId : ∀ s ∈ i.relativeId, P s) : ∀ s ∈ i.texts, P s := by
  intro s hs
  rcases mem_texts.mp hs with hs | hs | hs | hs
  · exact name s hs
  · exact activity s hs
  · exact uuid s hs
  · exact relativeId s hs

/-- An activity that was given, or the rest of the tokens in its place, holds no closing bracket that
they do not hold. -/
theorem closed_activity {activity : Option String} (ha : ∀ v ∈ activity, ']' ∉ v.toList)
    {ts : List String} (h : ∀ t ∈ ts, ']' ∉ t.toList) :
    ∀ v ∈ activity.or (Text.filled? (valueText ts)), ']' ∉ v.toList := by
  intro v hv
  rcases Option.or_eq_some_iff.mp hv with hv | ⟨-, hv⟩
  · exact ha v hv
  · unfold Text.filled? at hv
    split at hv
    · cases hv
    · obtain rfl := Option.some.inj hv
      exact closed_valueText h

/-- An item link that is read from an activity and tokens without closing brackets holds none. -/
theorem closed_ofTokens {activity : Option String} (ha : ∀ v ∈ activity, ']' ∉ v.toList)
    {ts : List String} (h : ∀ t ∈ ts, ']' ∉ t.toList) :
    ∀ s ∈ (ofTokens activity ts).texts, ']' ∉ s.toList := by
  have absent : ∀ s ∈ (none : Option String), ']' ∉ s.toList := by
    rintro s ⟨⟩
  have single : ∀ {u : String}, ']' ∉ u.toList → ∀ s ∈ some u, ']' ∉ s.toList := by
    rintro u hu s ⟨⟩
    exact hu
  cases ts with
  | nil => exact forall_mem_texts absent ha absent absent
  | cons t ts =>
    obtain ⟨ht, hrest⟩ := List.forall_mem_cons.mp h
    have hnamed := closed_activity ha hrest
    unfold ofTokens
    dsimp only
    split
    · exact forall_mem_texts absent hnamed (single ht) absent
    · split
      · exact forall_mem_texts absent hnamed absent (single ht)
      · split
        · exact forall_mem_texts absent ha absent (single ht)
        · exact forall_mem_texts (single (closed_valueText h)) ha absent absent

/-- The identifiers that are read of whole tokens are tokens of their own. -/
theorem isRead_ofTokens {activity : Option String} {ts : List String}
    (h : ∀ t ∈ ts, '"' ∉ t.toList → Token.IsWhole t) : (ofTokens activity ts).IsRead := by
  cases ts with
  | nil => exact ⟨fun s hs => (by cases hs), fun s hs => (by cases hs)⟩
  | cons t ts =>
    have ht := h t List.mem_cons_self
    unfold ofTokens
    dsimp only
    split
    next hu =>
      refine ⟨?_, fun s hs => (by cases hs)⟩
      rintro s ⟨⟩
      exact ⟨hu, ht⟩
    next hu =>
      have hrel : ∀ s ∈ some t, isUuid s = false ∧ ('"' ∉ s.toList → Token.IsWhole s) := by
        rintro s ⟨⟩
        exact ⟨by simpa using hu, ht⟩
      split
      · exact ⟨fun s hs => (by cases hs), hrel⟩
      · split
        · exact ⟨fun s hs => (by cases hs), hrel⟩
        · exact ⟨fun s hs => (by cases hs), fun s hs => (by cases hs)⟩

/-- An item link that is read from a body without closing brackets holds none. -/
theorem closed_read {body : String} (h : ']' ∉ body.toList) :
    (∀ s ∈ (read body).texts, ']' ∉ s.toList) ∧ (read body).IsRead := by
  have hclosed := Token.not_mem_split h
  have hwhole : ∀ t ∈ Token.split body, '"' ∉ t.toList → Token.IsWhole t :=
    fun t ht hq => Token.isWhole_of_mem_split ht hq
  have hcut : (∀ t ∈ (cutActivity (Token.split body)).1, t ∈ Token.split body) ∧
      ∀ v ∈ (cutActivity (Token.split body)).2, ']' ∉ v.toList := by
    unfold cutActivity
    split
    next last hl =>
      split
      · refine ⟨fun t ht => List.dropLast_subset _ ht, ?_⟩
        rintro v ⟨⟩
        exact Token.not_mem_toValue (hclosed last (List.mem_of_getLast? hl))
      · exact ⟨fun t ht => ht, fun v hv => (by cases hv)⟩
    · exact ⟨fun t ht => ht, fun v hv => (by cases hv)⟩
  exact ⟨closed_ofTokens hcut.2 fun t ht => hclosed t (hcut.1 t ht),
    isRead_ofTokens fun t ht => hwhole t (hcut.1 t ht)⟩

/-! ### What is written again -/

/-- Whether a name that stands for the item is a row of words of which the first does not look like an
identifier. -/
def IsLegible (i : Item) : Prop :=
  Text.filled i.uuid = none → Text.filled i.relativeId = none → ∀ n ∈ Text.filled i.name,
    ∃ w ws, n = Text.spaced (w :: ws) ∧ (∀ v ∈ w :: ws, Token.IsWhole v) ∧ isIdentifier w = false

/-- The canonical text of an item is fixed if its name is a row of words, of which the first is no
identifier. -/
theorem isFixed_of_words (closed : ∀ s ∈ i.texts, ']' ∉ s.toList)
    (ha : ∀ v ∈ Text.filled i.activity, v ≠ "" ∧ '"' ∉ v.toList) {w : String} {ws : List String}
    (hid : i.identifier? = some (Text.spaced (w :: ws))) (hlook : isIdentifier w = false)
    (hws : ∀ v ∈ w :: ws, Token.IsWhole v) (hq : ∀ v ∈ w :: ws, '"' ∉ v.toList) :
    Command.IsFixed .item (.item i) := by
  obtain ⟨hwhole, hrow⟩ := row_read_words hlook hws hq ha
  refine Occurrence.isFixed_of_row (by decide) rfl (closed_parts closed) hwhole ?_ rfl rfl hrow
  refine row_of_identifier? hid hws fun t ht => hwhole t ?_
  exact List.mem_append_right _ (Option.mem_toList.mpr ht)

/-- The canonical text of an item is fixed if an identifier names it. -/
theorem isFixed_of_identifier (closed : ∀ s ∈ i.texts, ']' ∉ s.toList)
    (ha : ∀ v ∈ Text.filled i.activity, v ≠ "" ∧ '"' ∉ v.toList) {t : String}
    (hid : i.identifier? = some t) (hlook : isIdentifier t = true) (hw : Token.IsWhole t)
    (hq : '"' ∉ t.toList) : Command.IsFixed .item (.item i) := by
  obtain ⟨hwhole, hread⟩ := read_identified hlook hw hq ha
  have hsingle : Text.spaced [t] = t := String.intercalate_singleton
  have htoken : ∀ j : Item, j.identifier? = some t → j.activityToken = i.activityToken →
      Text.spaced (j.parts.filter (· ≠ "")) = Text.spaced ([t] ++ i.activityToken.toList) := by
    intro j hj hact
    have hwords : j.identifier? = some (Text.spaced [t]) := by rw [hsingle, hj]
    have hrow := row_of_identifier? hwords (by simpa using hw)
      fun u hu => hwhole u (List.mem_cons_of_mem _ (Option.mem_toList.mpr (by rwa [hact] at hu)))
    rwa [hact] at hrow
  have hactivity : (ofIdentifier t (Text.filled i.activity)).activityToken = i.activityToken := by
    rw [activityToken, activity_ofIdentifier, Text.filled_filled, activityToken]
  exact Occurrence.isFixed_of_row (by decide) rfl (closed_parts closed) hwhole (htoken i hid rfl)
    (congrArg Command.item hread) rfl (htoken _ (identifier?_ofIdentifier hw.1 _) hactivity)

/-- The canonical text of an item that nothing names is fixed. -/
theorem isFixed_empty (h : i.identifier? = none) : Command.IsFixed .item (.item i) := by
  have hparts : i.parts = [] := by rw [parts, h]
  have hwrite : Command.write .item (.item i) = Command.write .item (.item {}) := by
    show bracketed "item" i.parts = bracketed "item" []
    rw [hparts]
  rw [Command.IsFixed, hwrite]
  exact ⟨.item {}, by decide, rfl⟩

/-- The canonical text of a legible item link is fixed. -/
theorem isFixed (closed : ∀ s ∈ i.texts, ']' ∉ s.toList) (hread : i.IsRead)
    (quotes : ∀ s ∈ i.texts, '"' ∉ s.toList) (h : i.IsLegible) :
    Command.IsFixed .item (.item i) := by
  have hmem := fun s hs => quotes s (mem_texts.mpr hs)
  have ha : ∀ v ∈ Text.filled i.activity, v ≠ "" ∧ '"' ∉ v.toList := by
    intro v hv
    obtain ⟨hv, hne⟩ := Text.filled_eq_some.mp hv
    exact ⟨hne, hmem v (.inr (.inl hv))⟩
  cases hid : i.identifier? with
  | none => exact isFixed_empty hid
  | some s =>
    obtain ⟨hne, hs⟩ := mem_identifier? hid
    -- the three identifiers from the most definite one to the name
    rcases hs with hs | hs | ⟨huuid, hrel, hs⟩
    · obtain ⟨hlook, hw⟩ := hread.uuid s hs
      have hq := hmem s (.inr (.inr (.inl hs)))
      exact isFixed_of_identifier closed ha hid (by simp [isIdentifier, hlook]) (hw hq) hq
    · obtain ⟨hlook, hw⟩ := hread.relativeId s hs
      have hq := hmem s (.inr (.inr (.inr hs)))
      by_cases hdot : isIdentifier s = true
      · exact isFixed_of_identifier closed ha hid hdot (hw hq) hq
      · have hsingle : Text.spaced [s] = s := String.intercalate_singleton
        have hwords : i.identifier? = some (Text.spaced [s]) := by rw [hid, hsingle]
        exact isFixed_of_words closed ha hwords (by simpa using hdot) (by simpa using hw hq)
          (by simpa using hq)
    · obtain ⟨w, ws, rfl, hws, hlook⟩ := h huuid hrel s (Text.filled_eq_some.mpr ⟨hs, hne⟩)
      refine isFixed_of_words closed ha hid hlook hws fun v hv hx => ?_
      refine hmem _ (.inl hs) ?_
      rw [Token.toList_spaced]
      exact Token.mem_intercalate_of_mem (List.mem_map_of_mem hv) hx

end Item

end RollMarkup
