import Mathlib
import RollMarkup.Command.Decoding
import RollMarkup.Proofs.Json.Keyed

/-!
# The fields of a record

A command is decoded field by field: each field is looked up by its key, and whether its value can be
decoded does not depend on the others (`Reads`). So nothing else that an object holds matters, and a
command can be decoded if each of its fields can be decoded alone (`Command.decoded_by_fields`).
-/

namespace RollMarkup

open Json (Members)

namespace Json

/-! ### Single fields -/

/-- The fields with a list: they may be absent, but not `null`. -/
def listKeys : List String :=
  ["rolls", "diceDescriptions"]

/-- What counts of a field: `null` is as good as no value, but not where a list is expected. -/
def counted (key : String) : Option Json → Option Json
  | some null => if key ∈ listKeys then some null else none
  | v => v

/-- Where no list is expected, `null` is as good as no value. -/
theorem counted_null {key : String} (h : key ∉ listKeys) : counted key (some null) = counted key none :=
  if_neg h

/-- A decoder of a field that may be absent, and that looks only at what counts. -/
structure Tolerates {β : Type} (key : String) (decode : Option Json → Decoded β) : Prop where
  accepts_none : ∃ b, decode none = .ok b
  decode_counted : ∀ v, decode (counted key v) = decode v

section Tolerates

variable {β : Type} {key : String}

/-- A field that may be absent may also be `null`. -/
theorem tolerates_optional (hkey : key ∉ listKeys) (decode : Json → Decoded β) :
    Tolerates key (optional decode) where
  accepts_none := ⟨none, rfl⟩
  decode_counted v := by
    unfold counted
    split
    · rw [if_neg hkey]
      rfl
    · rfl

/-- A field with a list may be absent, and `null` is not taken for that. -/
theorem tolerates_listOf (hkey : key ∈ listKeys) (decode : Json → Decoded β) :
    Tolerates key (listOf decode) where
  accepts_none := ⟨[], rfl⟩
  decode_counted v := by
    unfold counted
    split
    · rw [if_pos hkey]
    · rfl

end Tolerates

/-! ### Decoders of records -/

/-- A field of a record: its key, and the values that can be decoded. -/
structure Field where
  key : String
  accepts : Json → Prop

/-- The decoder of a record looks up these fields one after another. It keeps what it makes of one of them
for the record, and looks at the others in the same way whatever that is. -/
inductive Reads {α : Type} : List Field → (Members → Decoded α) → Prop where
  | done (a : α) : Reads [] fun _ => .ok a
  | field {β : Type} {key : String} {decode : Option Json → Decoded β} {fields : List Field}
      {next : β → Members → Decoded α} : Tolerates key decode → (∀ b, Reads fields (next b)) →
      Reads ({ key, accepts := fun v => ∃ b, decode (some v) = .ok b } :: fields)
        fun ms => decode (ms.lookup key) >>= fun b => next b ms

/-- Two steps of decoding succeed if the first does and the second does with what it gave. -/
theorem exists_ok_bind {α β : Type} {x : Decoded β} {f : β → Decoded α} :
    (∃ a, x >>= f = .ok a) ↔ ∃ b, x = .ok b ∧ ∃ a, f b = .ok a := by
  cases x with
  | error e =>
    refine iff_of_false ?_ ?_
    · rintro ⟨a, ⟨⟩⟩
    · rintro ⟨b, ⟨⟩, -⟩
  | ok b =>
    constructor
    · intro h
      exact ⟨b, rfl, h⟩
    · rintro ⟨_, ⟨⟩, h⟩
      exact h

namespace Reads

variable {α : Type} {fields : List Field} {decode : Members → Decoded α}

/-- A function of what is decoded looks up no other fields. -/
theorem map (h : Reads fields decode) {γ : Type} (g : α → γ) :
    Reads fields fun ms => (decode ms).map g := by
  induction h with
  | done a => exact .done (g a)
  | @field β key first fields next htol _ ih =>
    have hmap : (fun ms : Members => (first (ms.lookup key) >>= fun b => next b ms).map g) =
        fun ms => first (ms.lookup key) >>= fun b => (next b ms).map g :=
      funext fun ms => by cases first (ms.lookup key) <;> rfl
    rw [hmap]
    exact .field htol ih

/-- Nothing but what counts of the fields has an influence on what is decoded. -/
theorem congr (h : Reads fields decode) {ms ns : Members}
    (hsame : ∀ f ∈ fields, counted f.key (ms.lookup f.key) = counted f.key (ns.lookup f.key)) :
    decode ms = decode ns := by
  induction h with
  | done a => rfl
  | @field β key first fields next htol _ ih =>
    obtain ⟨hfirst, hrest⟩ := List.forall_mem_cons.mp hsame
    have hvalue : first (ms.lookup key) = first (ns.lookup key) := by
      rw [← htol.decode_counted, hfirst, htol.decode_counted]
    have hnext : (fun b => next b ms) = fun b => next b ns := funext fun b => ih b hrest
    dsimp only
    rw [hvalue, hnext]

/-- A record can be decoded if the value of each of its fields can be. -/
theorem exists_ok_iff (h : Reads fields decode) (ms : Members) :
    (∃ a, decode ms = .ok a) ↔ ∀ f ∈ fields, ∀ v, ms.lookup f.key = some v → f.accepts v := by
  induction h with
  | done a => simp
  | @field β key first fields next htol _ ih =>
    have hfirst : (∃ b, first (ms.lookup key) = .ok b) ↔
        ∀ v, ms.lookup key = some v → ∃ b, first (some v) = .ok b := by
      cases ms.lookup key with
      | none => simp [htol.accepts_none]
      | some v => simp
    dsimp only
    rw [List.forall_mem_cons, ← hfirst, exists_ok_bind]
    -- the other fields say the same whatever the first one was decoded to
    simp only [ih, exists_and_right]

theorem exists_fields (h : Reads fields decode) {keys : List String}
    (hkeys : fields.map Field.key = keys) :
    ∃ fields, fields.map Field.key = keys ∧ Reads fields decode :=
  ⟨fields, hkeys, h⟩

/-- What a record makes of the value of one field shows when there is no other member. -/
theorem exists_ok_single_iff (h : Reads fields decode) (hkeys : (fields.map Field.key).Nodup)
    {f : Field} (hf : f ∈ fields) (v : Json) :
    (∃ a, decode [(f.key, v)] = .ok a) ↔ f.accepts v := by
  rw [h.exists_ok_iff]
  constructor
  · intro haccepts
    exact haccepts f hf v List.lookup_cons_self
  · intro haccepts g hg w hw
    have hsingle : ([(f.key, v)].map Prod.fst).Nodup := List.nodup_singleton f.key
    obtain ⟨hkey, rfl⟩ :=
      Prod.mk.inj (List.mem_singleton.mp ((Keyed.lookup_eq_some_iff hsingle).mp hw))
    rwa [List.inj_on_of_nodup_map hkeys hg hf hkey]

end Reads

end Json

open Json

/-! ### The fields of the commands -/

/-- The keys of the fields of a command, in their order. -/
def Kind.keys : Kind → List String
  | .check | .skill | .tool =>
    ["ability", "activity", "dc", "format", "passive", "rules", "skill", "tool", "vehicle"]
  | .attack => ["activity", "attackMode", "format", "formula", "rules"]
  | .damage => ["activity", "average", "format", "formula", "rolls", "type"]
  | .heal => ["activity", "average", "format", "formula", "type"]
  | .save | .concentration => ["ability", "activity", "dc", "format"]
  | .item => ["activity", "itemName", "relativeId", "uuid"]
  | .roll => ["description", "diceDescriptions", "formula", "inline", "label", "mode"]
  | .reference => ["apply", "category", "rule"]

/-- No command has two fields under one key. -/
theorem Kind.nodup_keys (k : Kind) : k.keys.Nodup := by
  cases k <;> decide

namespace Command

/-- The decoder of a command looks up the fields of its record. -/
theorem exists_reads (k : Kind) :
    ∃ fields, fields.map Field.key = k.keys ∧ Reads fields (ofMembers k) := by
  cases k
  all_goals
    apply Reads.exists_fields
    · apply Reads.map
      -- one step for each field of the record, which puts its key into the list
      repeat
        first
        | apply Reads.field (tolerates_optional (by decide) _)
        | apply Reads.field (tolerates_listOf (by decide) _)
        intro _
      exact .done _
    · rfl

/-! ### Changes that are not noticed -/

/-- A change of the members of an object that says nothing else about the fields with these keys: another
order, a member more or less under another key, or a `null` for what is absent. -/
inductive Edit (keys : List String) : Members → Members → Prop where
  | reorder {ms ns : Members} : ms.Perm ns → Edit keys ms ns
  | add {ms : Members} {key : String} (v : Json) : key ∉ keys → key ∉ ms.map Prod.fst →
      Edit keys ms ((key, v) :: ms)
  | remove {ms : Members} {key : String} (v : Json) : key ∉ keys → Edit keys ((key, v) :: ms) ms
  | null {ms : Members} {key : String} : key ∉ listKeys → key ∉ ms.map Prod.fst →
      Edit keys ms ((key, .null) :: ms)

theorem lookup_cons_ne {ms : Members} {key other : String} (h : other ≠ key) (v : Json) :
    ((key, v) :: ms).lookup other = ms.lookup other := by
  rw [List.lookup_cons, beq_eq_false_iff_ne.mpr h]

variable {keys : List String} {ms ns : Members}

/-- A change gives no key twice. -/
theorem Edit.nodup (h : Edit keys ms ns) (hms : (ms.map Prod.fst).Nodup) :
    (ns.map Prod.fst).Nodup := by
  cases h with
  | reorder hperm => exact (hperm.map Prod.fst).nodup_iff.mp hms
  | add v _ habsent => exact List.nodup_cons.mpr ⟨habsent, hms⟩
  | remove v _ => exact (List.nodup_cons.mp hms).2
  | null _ habsent => exact List.nodup_cons.mpr ⟨habsent, hms⟩

/-- What counts of the fields is the same after a change. -/
theorem Edit.counted_eq (h : Edit keys ms ns) (hms : (ms.map Prod.fst).Nodup) :
    ∀ key ∈ keys, counted key (ms.lookup key) = counted key (ns.lookup key) := by
  intro key hkey
  cases h with
  | reorder hperm => rw [Keyed.lookup_perm hperm hms]
  | @add _ other v hunknown _ =>
    rw [lookup_cons_ne fun heq : key = other => hunknown (heq ▸ hkey)]
  | @remove _ other v hunknown =>
    rw [lookup_cons_ne fun heq : key = other => hunknown (heq ▸ hkey)]
  | @null _ added hlist habsent =>
    by_cases h : key = added
    · -- the field was absent, so that it now counts as it did before
      subst h
      rw [Keyed.lookup_eq_none habsent, List.lookup_cons_self, counted_null hlist]
    · rw [lookup_cons_ne h]

/-- Changes one after another leave what is decoded as it is. -/
theorem ofMembers_of_edits {k : Kind} (h : Relation.ReflTransGen (Edit k.keys) ms ns)
    (hms : (ms.map Prod.fst).Nodup) :
    ofMembers k ns = ofMembers k ms ∧ (ns.map Prod.fst).Nodup := by
  obtain ⟨fields, hfields, hreads⟩ := exists_reads k
  induction h with
  | refl => exact ⟨rfl, hms⟩
  | tail _ hedit ih =>
    obtain ⟨hsame, hnodup⟩ := ih
    have hcounted : ∀ f ∈ fields, _ := fun f hf =>
      hedit.counted_eq hnodup f.key (hfields ▸ List.mem_map_of_mem hf)
    exact ⟨(hreads.congr hcounted).symm.trans hsame, hedit.nodup hnodup⟩

/-- A command can be decoded if the value of each of its fields can be decoded alone. -/
theorem exists_ok_iff (k : Kind) (hms : (ms.map Prod.fst).Nodup) :
    (∃ c, ofMembers k ms = .ok c) ↔
      ∀ key ∈ k.keys, ∀ v, (key, v) ∈ ms → ∃ c, ofMembers k [(key, v)] = .ok c := by
  obtain ⟨fields, hfields, hreads⟩ := exists_reads k
  have hnodup : (fields.map Field.key).Nodup := hfields ▸ k.nodup_keys
  rw [hreads.exists_ok_iff, ← hfields, List.forall_mem_map]
  refine forall₂_congr fun f hf => forall_congr' fun v => ?_
  rw [Keyed.lookup_eq_some_iff hms, hreads.exists_ok_single_iff hnodup hf]

/-- Decoding passes over what it does not know. Members may be reordered, members under unknown keys may
come and go, and what is absent may be given as `null`, a list apart: what is decoded stays the same, and
so does the error if there is one. A command can be decoded if the value of each of its fields can be
decoded alone, so that no field has an influence on another one. -/
theorem decoded_by_fields (k : Kind) {ms : Members} (hms : (ms.map Prod.fst).Nodup) :
    (∀ ns, Relation.ReflTransGen (Edit k.keys) ms ns → ofMembers k ns = ofMembers k ms) ∧
      ((∃ c, ofMembers k ms = .ok c) ↔
        ∀ key ∈ k.keys, ∀ v, (key, v) ∈ ms → ∃ c, ofMembers k [(key, v)] = .ok c) :=
  ⟨fun _ h => (ofMembers_of_edits h hms).1, exists_ok_iff k hms⟩

/-- Two fields that cannot be decoded, and an unknown member between them. The error is about the one with
the lesser key, also when the unknown member is left out and a field is given as `null`. -/
theorem decoded_by_fields_damage :
    let ms : Members :=
      [("type", .bool true), ("note", .str "hot"), ("average", .list []), ("formula", .str "1d6")]
    (ms.map Prod.fst).Nodup ∧ ofMembers .damage ms = .error (.noForm "Average") ∧
      ofMembers .damage [("format", .null), ("average", .list []), ("formula", .str "1d6"),
        ("type", .bool true)] = .error (.noForm "Average") ∧
      ¬ ∀ key ∈ Kind.damage.keys, ∀ v, (key, v) ∈ ms → ∃ c, ofMembers .damage [(key, v)] = .ok c := by
  intro ms
  have hms : (ms.map Prod.fst).Nodup := by decide
  obtain ⟨hedits, hok⟩ := decoded_by_fields .damage hms
  have hfails : ofMembers .damage ms = .error (.noForm "Average") := rfl
  have hfront : ms.Perm [("note", .str "hot"), ("average", .list []), ("formula", .str "1d6"),
      ("type", .bool true)] :=
    (List.perm_append_singleton ("type", Json.bool true) _).symm
  have hchanged := hedits [("format", .null), ("average", .list []), ("formula", .str "1d6"),
      ("type", .bool true)]
    (((Relation.ReflTransGen.single (.reorder hfront)).tail (.remove _ (by decide))).tail
      (.null (by decide) (by decide)))
  refine ⟨hms, hfails, hchanged.trans hfails, hok.not.mp ?_⟩
  rw [hfails]
  rintro ⟨c, ⟨⟩⟩

end Command

end RollMarkup
