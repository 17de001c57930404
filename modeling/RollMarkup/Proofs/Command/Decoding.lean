import Mathlib
import RollMarkup.Command.Decoding
import RollMarkup.Command.Encoding
import RollMarkup.Proofs.Json.Rearranged
import RollMarkup.Proofs.Vocabulary.Category
import RollMarkup.Proofs.Vocabulary.Naming

/-!
# Commands from their own JSON

The record of a command is decoded from its own encoding, whatever the order of the members
(`Command.exists_members`): every decoder of a field gives back what was encoded (`Restores`), and a
field that was left out comes back as absent.
-/

namespace RollMarkup

instance : Keyword.Lawful Category where
  ofWord?_word := Category.ofWord?_key

namespace Json

/-! ### Members that may be absent -/

/-- The members that are there, of those that may be absent. -/
def present (ps : List (String × Option Json)) : List (String × Json) :=
  ps.filterMap fun p => member? p.1 p.2

/-- The members that are there stand in the order in which they were given. -/
theorem sublist_present (ps : List (String × Option Json)) :
    ((present ps).map Prod.fst).Sublist (ps.map Prod.fst) := by
  induction ps with
  | nil => exact .slnil
  | cons p ps ih =>
    obtain ⟨key, _ | v⟩ := p
    · exact ih.cons key
    · exact ih.cons_cons key

/-- A key under which nothing else was given leads to the value that was given, if one was. -/
theorem lookup_present {ps : List (String × Option Json)} (hps : (ps.map Prod.fst).Nodup)
    {p : String × Option Json} (hp : p ∈ ps) : (present ps).lookup p.1 = p.2 := by
  induction ps with
  | nil => cases hp
  | cons q ps ih =>
    obtain ⟨hq, hrest⟩ := List.nodup_cons.mp hps
    -- if the first member is absent, no later one answers for it
    have hnone : (present ps).lookup q.1 = none :=
      Keyed.lookup_eq_none fun h => hq ((sublist_present ps).subset h)
    rcases List.mem_cons.mp hp with rfl | hmem
    · obtain ⟨key, _ | v⟩ := p
      · exact hnone
      · exact List.lookup_cons_self
    · have hne : (p.1 == q.1) = false :=
        beq_eq_false_iff_ne.mpr fun h => hq (h ▸ List.mem_map_of_mem hmem)
      obtain ⟨key, _ | v⟩ := q
      · exact ih hrest hmem
      · have hcons : present ((key, some v) :: ps) = (key, v) :: present ps := rfl
        rw [hcons, List.lookup_cons, hne]
        exact ih hrest hmem

variable {f : Json → Json}

/-- An object of members that may be absent has, when they are rearranged, still each of them. -/
theorem exists_members (hf : Rearranges f) {ps : List (String × Option Json)}
    (hps : (ps.map Prod.fst).Nodup) :
    ∃ ms, f (ofMembers? (ps.map fun p => member? p.1 p.2)) = object ms ∧
      ∀ p ∈ ps, ms.lookup p.1 = p.2.map f := by
  obtain ⟨ms, hms, hlookup⟩ := hf.object (present ps) (hps.sublist (sublist_present ps))
  refine ⟨ms, ?_, fun p hp => ?_⟩
  · rw [ofMembers?, List.filterMap_map]
    exact hms
  · rw [hlookup, lookup_present hps hp]

/-! ### Decoders -/

/-- A decoder that gives back what was encoded, also after a rearrangement. It does not take `null`,
which stands for an absent value. -/
structure Restores (f : Json → Json) {α : Type} (encode : α → Json) (decode : Json → Decoded α) :
    Prop where
  decode_encode : ∀ a, decode (f (encode a)) = .ok a
  decode_null : ∃ e, decode null = .error e

/-- A decoder of members that gives back the record whose object they were, also after a
rearrangement. -/
def RestoresMembers (f : Json → Json) {α : Type} (encode : α → Json)
    (decode : Members → Decoded α) : Prop :=
  ∀ a, ∃ ms, f (encode a) = object ms ∧ decode ms = .ok a

section Fields

variable {α : Type} {encode : α → Json} {decode : Json → Decoded α}

/-- What a value is encoded to is never `null`. -/
theorem Restores.ne_null (h : Restores f encode decode) (a : α) : f (encode a) ≠ null := by
  intro hnull
  obtain ⟨e, he⟩ := h.decode_null
  have hok := h.decode_encode a
  rw [hnull, he] at hok
  cases hok

/-- A value that may be absent is decoded, or its absence is. -/
theorem Restores.optional (h : Restores f encode decode) (a : Option α) :
    optional decode ((a.map encode).map f) = .ok a := by
  cases a with
  | none => rfl
  | some a =>
    rw [Option.map_some, Option.map_some, Json.optional, h.decode_encode]
    · rfl
    · exact h.ne_null a

/-- A list of values is decoded value by value. -/
theorem Restores.mapM (h : Restores f encode decode) (as : List α) :
    ((as.map encode).map f).mapM decode = .ok as := by
  induction as with
  | nil => rfl
  | cons a as ih =>
    rw [List.map_cons, List.map_cons, List.mapM_cons, h.decode_encode, ih]
    rfl

/-- A list that is left out if it is empty is decoded, or its absence as the empty list. -/
theorem Restores.listOf (h : Restores f encode decode) (hf : Rearranges f) (as : List α) :
    listOf decode ((ofList? encode as).map f) = .ok as := by
  cases as with
  | nil => rfl
  | cons a as =>
    rw [ofList?, List.isEmpty_cons, if_neg (by decide), Option.map_some, hf.list]
    exact h.mapM (a :: as)

variable {decodeMembers : Members → Decoded α}

/-- What a decoder of members has to do: to give back a record when it finds each field under its
key. -/
theorem RestoresMembers.of_fields (hf : Rearranges f) (fields : α → List (String × Option Json))
    (hencode : ∀ a, encode a = ofMembers? ((fields a).map fun p => member? p.1 p.2))
    (hkeys : ∀ a, ((fields a).map Prod.fst).Nodup)
    (h : ∀ a ms, (∀ p ∈ fields a, ms.lookup p.1 = p.2.map f) → decodeMembers ms = .ok a) :
    RestoresMembers f encode decodeMembers := by
  intro a
  obtain ⟨ms, hms, hlookup⟩ := exists_members hf (hkeys a)
  exact ⟨ms, by rw [hencode, hms], h a ms hlookup⟩

/-- A decoder of members makes a decoder of objects. -/
theorem RestoresMembers.restores (h : RestoresMembers f encode decodeMembers)
    (hobject : ∀ ms, decode (object ms) = decodeMembers ms) (hnull : ∃ e, decode null = .error e) :
    Restores f encode decode where
  decode_encode a := by
    obtain ⟨ms, hms, hdecode⟩ := h a
    rw [hms, hobject, hdecode]
  decode_null := hnull

/-- What is made of a record is made of the decoded one, too. -/
theorem RestoresMembers.map {β : Type} (h : RestoresMembers f encode decodeMembers) (g : α → β)
    (a : α) : ∃ ms, f (encode a) = object ms ∧ (decodeMembers ms).map g = .ok (g a) := by
  obtain ⟨ms, hms, hdecode⟩ := h a
  exact ⟨ms, hms, by rw [hdecode]; rfl⟩

end Fields

section Rearranged

variable (hf : Rearranges f)

include hf

theorem restores_text : Restores f str toText where
  decode_encode s := by rw [hf.str, toText]
  decode_null := ⟨_, rfl⟩

theorem restores_flag : Restores f bool toFlag where
  decode_encode b := by rw [hf.bool, toFlag]
  decode_null := ⟨_, rfl⟩

theorem restores_word {α : Type} [Keyword α] [Keyword.Lawful α] :
    Restores f (ofWord (α := α)) toKeyword where
  decode_encode a := by rw [ofWord, hf.str, toKeyword, keywordOf, Keyword.Lawful.ofWord?_word]
  decode_null := ⟨_, rfl⟩

theorem restores_selection : Restores f ofSelection toSelection where
  decode_encode s := by
    cases s with
    | one v => rw [ofSelection, hf.str, toSelection]
    | many vs =>
      have hitems : ((vs.map str).map f).mapM text? = some vs := by
        induction vs with
        | nil => rfl
        | cons v vs ih =>
          rw [List.map_cons, List.map_cons, List.mapM_cons, ih, hf.str]
          rfl
      rw [ofSelection, hf.list, toSelection, hitems]
  decode_null := ⟨_, rfl⟩

theorem restores_quantity : Restores f ofQuantity toQuantity where
  decode_encode q := by
    cases q with
    | number n => rw [ofQuantity, hf.int, toQuantity, int64?, Numeral.ofInt?_toInt]
    | formula s => rw [ofQuantity, hf.str]; rfl
  decode_null := ⟨_, rfl⟩

theorem restores_average : Restores f ofAverage toAverage where
  decode_encode a := by
    cases a with
    | shown b => rw [ofAverage, hf.bool, toAverage]
    | number n =>
      rw [ofAverage, hf.int]
      simp only [toAverage, int64?, Numeral.ofInt?_toInt]
    | formula s => rw [ofAverage, hf.str]; rfl
  decode_null := ⟨_, rfl⟩

end Rearranged

end Json

open Json

variable {f : Json → Json}

/-! ### Records

Each record lists its fields with their keys, and its decoder gets back each of them. -/

section Records

variable (hf : Rearranges f)

include hf

theorem Check.restores : RestoresMembers f toJson ofMembers := by
  refine .of_fields hf (fun c =>
    [ ("ability", c.ability.map str),
      ("skill", c.skills.map ofSelection),
      ("tool", c.tools.map ofSelection),
      ("vehicle", c.vehicle.map str),
      ("dc", c.dc.map ofQuantity),
      ("format", c.format.map ofWord),
      ("passive", c.passive.map bool),
      ("activity", c.activity.map str),
      ("rules", c.edition.map ofWord)]) (fun _ => rfl) (by simp) fun c ms h => ?_
  simp only [List.forall_mem_cons] at h
  simp only [ofMembers, h, (restores_text hf).optional, (restores_quantity hf).optional,
    (restores_word hf).optional, (restores_flag hf).optional, (restores_selection hf).optional]
  rfl

theorem Attack.restores : RestoresMembers f toJson ofMembers := by
  refine .of_fields hf (fun a =>
    [ ("formula", a.formula.map ofQuantity),
      ("activity", a.activity.map str),
      ("attackMode", a.mode.map str),
      ("format", a.format.map ofWord),
      ("rules", a.edition.map ofWord)]) (fun _ => rfl) (by simp) fun a ms h => ?_
  simp only [List.forall_mem_cons] at h
  simp only [ofMembers, h, (restores_text hf).optional, (restores_quantity hf).optional,
    (restores_word hf).optional]
  rfl

theorem DamageRoll.restores : RestoresMembers f toJson ofMembers := by
  refine .of_fields hf (fun r =>
    [ ("formula", some (str r.formula)),
      ("type", r.types.map ofSelection)]) (fun _ => rfl) (by simp) fun r ms h => ?_
  simp only [List.forall_mem_cons, Option.map_some] at h
  simp only [ofMembers, h, Option.mapM_some, (restores_text hf).decode_encode,
    (restores_selection hf).optional]
  rfl

theorem Damage.restores : RestoresMembers f toJson ofMembers := by
  have hrolls : Restores f DamageRoll.toJson DamageRoll.ofJson :=
    (DamageRoll.restores hf).restores (fun _ => rfl) ⟨_, rfl⟩
  refine .of_fields hf (fun d =>
    [ ("formula", d.formula.map str),
      ("type", d.types.map ofSelection),
      ("average", d.average.map ofAverage),
      ("activity", d.activity.map str),
      ("format", d.format.map ofWord),
      ("rolls", ofList? DamageRoll.toJson d.rolls)]) (fun _ => rfl) (by simp) fun d ms h => ?_
  simp only [List.forall_mem_cons] at h
  simp only [ofMembers, h, (restores_text hf).optional, (restores_selection hf).optional,
    (restores_average hf).optional, (restores_word hf).optional, hrolls.listOf hf]
  rfl

theorem Heal.restores : RestoresMembers f toJson ofMembers := by
  refine .of_fields hf (fun h =>
    [ ("formula", h.formula.map str),
      ("type", h.healing.map ofWord),
      ("average", h.average.map ofAverage),
      ("activity", h.activity.map str),
      ("format", h.format.map ofWord)]) (fun _ => rfl) (by simp) fun h ms h => ?_
  simp only [List.forall_mem_cons] at h
  simp only [ofMembers, h, (restores_text hf).optional, (restores_average hf).optional,
    (restores_word hf).optional]
  rfl

theorem Save.restores : RestoresMembers f toJson ofMembers := by
  refine .of_fields hf (fun s =>
    [ ("ability", s.abilities.map ofSelection),
      ("dc", s.dc.map ofQuantity),
      ("format", s.format.map ofWord),
      ("activity", s.activity.map str)]) (fun _ => rfl) (by simp) fun s ms h => ?_
  simp only [List.forall_mem_cons] at h
  simp only [ofMembers, h, (restores_text hf).optional, (restores_selection hf).optional,
    (restores_quantity hf).optional, (restores_word hf).optional]
  rfl

theorem Item.restores : RestoresMembers f toJson ofMembers := by
  refine .of_fields hf (fun i =>
    [ ("itemName", i.name.map str),
      ("activity", i.activity.map str),
      ("uuid", i.uuid.map str),
      ("relativeId", i.relativeId.map str)]) (fun _ => rfl) (by simp) fun i ms h => ?_
  simp only [List.forall_mem_cons] at h
  simp only [ofMembers, h, (restores_text hf).optional]
  rfl

theorem DescribedDice.restores : RestoresMembers f toJson ofMembers := by
  refine .of_fields hf (fun d =>
    [ ("formula", some (str d.formula)),
      ("description", some (str d.description))]) (fun _ => rfl) (by simp) fun d ms h => ?_
  simp only [List.forall_mem_cons, Option.map_some] at h
  simp only [ofMembers, h, Option.mapM_some, (restores_text hf).decode_encode]
  rfl

theorem DiceRoll.restores : RestoresMembers f toJson ofMembers := by
  have hdice : Restores f DescribedDice.toJson DescribedDice.ofJson :=
    (DescribedDice.restores hf).restores (fun _ => rfl) ⟨_, rfl⟩
  refine .of_fields hf (fun r =>
    [ ("formula", r.formula.map str),
      ("mode", r.audience.map ofWord),
      ("description", r.description.map str),
      ("diceDescriptions", ofList? DescribedDice.toJson r.dice),
      ("inline", r.inlineForm.map ofWord),
      ("label", r.label.map str)]) (fun _ => rfl) (by simp) fun r ms h => ?_
  simp only [List.forall_mem_cons] at h
  simp only [ofMembers, h, (restores_text hf).optional, (restores_word hf).optional,
    hdice.listOf hf]
  rfl

theorem RuleLink.restores : RestoresMembers f toJson ofMembers := by
  refine .of_fields hf (fun r =>
    [ ("category", r.category.map ofWord),
      ("rule", r.rule.map str),
      ("apply", r.apply.map bool)]) (fun _ => rfl) (by simp) fun r ms h => ?_
  simp only [List.forall_mem_cons] at h
  simp only [ofMembers, h, (restores_text hf).optional, (restores_word hf).optional,
    (restores_flag hf).optional]
  rfl

end Records

namespace Command

/-- The record of a command is decoded from its own encoding, whatever the order of the members. -/
theorem exists_members (hf : Rearranges f) {c : Command} {k : Kind} (hc : c.fits k = true) :
    ∃ ms, f c.toJson = object ms ∧ ofMembers k ms = .ok c := by
  -- a kind fits one form of record only, and the decoder of the kind is the one of that form
  have hk : (empty k).kind = c.kind := of_decide_eq_true hc
  cases c with
  | check c =>
    have hmembers := (Check.restores hf).map check c
    cases k with
    | check | skill | tool => exact hmembers
    | _ => cases hk
  | attack a =>
    have hmembers := (Attack.restores hf).map attack a
    cases k with
    | attack => exact hmembers
    | _ => cases hk
  | damage d =>
    have hmembers := (Damage.restores hf).map damage d
    cases k with
    | damage => exact hmembers
    | _ => cases hk
  | heal h =>
    have hmembers := (Heal.restores hf).map heal h
    cases k with
    | heal => exact hmembers
    | _ => cases hk
  | save s =>
    have hmembers := (Save.restores hf).map save s
    cases k with
    | save | concentration => exact hmembers
    | _ => cases hk
  | item i =>
    have hmembers := (Item.restores hf).map item i
    cases k with
    | item => exact hmembers
    | _ => cases hk
  | roll r =>
    have hmembers := (DiceRoll.restores hf).map roll r
    cases k with
    | roll => exact hmembers
    | _ => cases hk
  | link r =>
    have hmembers := (RuleLink.restores hf).map link r
    cases k with
    | reference => exact hmembers
    | _ => cases hk

end Command

/-! ### Encodings that can be read -/

namespace Json

variable {room : Nat}

/-- Whether a value that may be absent can be read if it is there. -/
def IsReadableIfGiven (room : Nat) (m : Option (String × Json)) : Prop :=
  ∀ p ∈ m, p.2.IsReadable room

/-- An object can be read if each of the members that are there can. -/
theorem isReadable_ofMembers? {ms : List (Option (String × Json))}
    (h : ∀ m ∈ ms, IsReadableIfGiven room m) : (ofMembers? ms).IsReadable (room + 1) := by
  refine .object fun p hp => ?_
  obtain ⟨m, hm, hp⟩ := List.mem_filterMap.mp hp
  exact h m hm p hp

theorem isReadable_ofWord {α : Type} [Keyword α] (a : α) : (ofWord a).IsReadable room :=
  .str _

/-- A number of 64 bits can be read. -/
theorem isReadable_int64 (n : Int64) : (int n.toInt).IsReadable room := by
  have low := n.le_toInt
  have high := n.toInt_lt
  exact .int low (by omega)

theorem isReadable_ofSelection (s : Selection) : (ofSelection s).IsReadable (room + 1) := by
  cases s with
  | one v => exact .str v
  | many vs =>
    refine .list fun v hv => ?_
    obtain ⟨s, -, rfl⟩ := List.mem_map.mp hv
    exact .str s

theorem isReadable_ofQuantity (q : Quantity) : (ofQuantity q).IsReadable room := by
  cases q with
  | number n => exact isReadable_int64 n
  | formula s => exact .str s

theorem isReadable_ofAverage (a : Average) : (ofAverage a).IsReadable room := by
  cases a with
  | shown b => exact .bool b
  | number n => exact isReadable_int64 n
  | formula s => exact .str s

variable {α : Type} {encode : α → Json}

theorem isReadableIfGiven_member? (h : ∀ a, (encode a).IsReadable room) (key : String)
    (a : Option α) : IsReadableIfGiven room (member? key (a.map encode)) := by
  cases a with
  | none => rintro _ ⟨⟩
  | some a =>
    rintro _ ⟨⟩
    exact h a

theorem isReadableIfGiven_ofList? (h : ∀ a, (encode a).IsReadable room) (key : String)
    (as : List α) : IsReadableIfGiven (room + 1) (member? key (ofList? encode as)) := by
  rw [ofList?]
  split
  · rintro _ ⟨⟩
  · rintro _ ⟨⟩
    refine .list fun v hv => ?_
    obtain ⟨a, -, rfl⟩ := List.mem_map.mp hv
    exact h a

end Json

/-- A roll is an object that holds a list of types at most, and nothing deeper. -/
theorem DamageRoll.isReadable_toJson (r : DamageRoll) : r.toJson.IsReadable 2 := by
  have hformula : IsReadableIfGiven 1 (some ("formula", str r.formula)) :=
    isReadableIfGiven_member? .str "formula" (some r.formula)
  have htypes : IsReadableIfGiven 1 (member? "type" (r.types.map ofSelection)) :=
    isReadableIfGiven_member? isReadable_ofSelection "type" r.types
  exact isReadable_ofMembers?
    (List.forall_mem_cons.mpr ⟨hformula, List.forall_mem_singleton.mpr htypes⟩)

theorem DescribedDice.isReadable_toJson (d : DescribedDice) : d.toJson.IsReadable 2 := by
  refine .object ?_
  rw [List.forall_mem_cons, List.forall_mem_singleton]
  exact ⟨.str d.formula, .str d.description⟩

/-- Lists and objects do not stand in each other more than four times. -/
theorem Command.isReadable_toJson (c : Command) : c.toJson.IsReadable 4 := by
  cases c <;> refine isReadable_ofMembers? ?_ <;>
    simp only [List.forall_mem_cons, isReadableIfGiven_member? IsReadable.str,
      isReadableIfGiven_member? IsReadable.bool, isReadableIfGiven_member? isReadable_ofWord,
      isReadableIfGiven_member? isReadable_ofSelection,
      isReadableIfGiven_member? isReadable_ofQuantity,
      isReadableIfGiven_member? isReadable_ofAverage,
      isReadableIfGiven_ofList? DamageRoll.isReadable_toJson,
      isReadableIfGiven_ofList? DescribedDice.isReadable_toJson, List.not_mem_nil,
      false_implies, implies_true, and_true]

end RollMarkup
