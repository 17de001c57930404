import Mathlib
import RollMarkup.Proofs.Command.Attack.Body
import RollMarkup.Proofs.Command.Check.Body
import RollMarkup.Proofs.Command.Damage.Body
import RollMarkup.Proofs.Command.Heal
import RollMarkup.Proofs.Command.Save

/-!
# The order of keys

Each key has a field of its own, so that entries with different keys can change places (`SetsByKey`).
A body in which every token has a key is read as the same command whatever the order of its tokens, if
no two of them have the same key (`first?_perm`).
-/

namespace RollMarkup

namespace Entry

/-- The text of a token before its first equals sign. -/
def keyText (token : String) : String :=
  String.ofList (token.toList.takeWhile (· ≠ '='))

theorem fst_of_cutFirst? {cs : List Char} {p : List Char × List Char}
    (h : Text.cutFirst? '=' cs = some p) : p.1 = cs.takeWhile (· ≠ '=') := by
  induction cs generalizing p with
  | nil => cases h
  | cons c cs ih =>
    by_cases hc : c = '='
    · rw [Text.cutFirst?, if_pos hc] at h
      obtain rfl := Option.some.inj h
      simp [hc]
    · rw [Text.cutFirst?, if_neg hc] at h
      obtain ⟨q, hq, rfl⟩ := Option.map_eq_some_iff.mp h
      simp [hc, ih hq]

/-- The key of an entry is the text before the first equals sign. -/
theorem key_of_ofToken? {t : String} {e : Entry} (h : ofToken? t = some e) : e.key = keyText t := by
  obtain ⟨p, hp, rfl⟩ := Option.map_eq_some_iff.mp h
  obtain ⟨q, hq, rfl⟩ := Option.map_eq_some_iff.mp hp
  rw [keyText, ← fst_of_cutFirst? hq]

section Keyed

variable {σ : Type} {put : σ → Entry → σ} {keys : List String}

/-- Two keys whose entries can change places. -/
def Swaps (put : σ → Entry → σ) (k l : String) : Prop :=
  ∀ d v w, put (put d ⟨k, v⟩) ⟨l, w⟩ = put (put d ⟨l, w⟩) ⟨k, v⟩

instance : Std.Symm (Swaps put) where
  symm _ _ h d v w := (h d w v).symm

/-- A record that is set by entries: those of an unknown key do nothing, and those of different keys
change places. -/
structure SetsByKey (put : σ → Entry → σ) (keys : List String) : Prop where
  unknown : ∀ d k v, k ∉ keys → put d ⟨k, v⟩ = d
  swaps : keys.Pairwise (Swaps put)

/-- Entries with different keys can change places. -/
theorem SetsByKey.comm (h : SetsByKey put keys) {e f : Entry} (hne : e.key ≠ f.key) (d : σ) :
    put (put d e) f = put (put d f) e := by
  by_cases he : e.key ∈ keys
  · by_cases hf : f.key ∈ keys
    · exact h.swaps.forall he hf hne d e.value f.value
    · rw [h.unknown _ f.key f.value hf, h.unknown _ f.key f.value hf]
  · rw [h.unknown _ e.key e.value he, h.unknown _ e.key e.value he]

/-- Entries of which no two have the same key can be taken in any order. -/
theorem SetsByKey.foldl_perm (h : SetsByKey put keys) {es fs : List Entry} (hperm : es.Perm fs)
    (distinct : (es.map key).Nodup) (d : σ) : es.foldl put d = fs.foldl put d := by
  refine hperm.foldl_eq' (fun e he f hf d => ?_) d
  by_cases heq : e.key = f.key
  -- two entries of one key are the same entry
  · rw [List.inj_on_of_nodup_map distinct he hf heq]
  · exact h.comm heq d

/-- Tokens of which each has a key of its own are taken entry by entry. -/
theorem foldl_filterMap {add : σ → String → σ}
    (hadd : ∀ d t e, ofToken? t = some e → add d t = put d e) {ts : List String}
    (hkey : ∀ t ∈ ts, '=' ∈ t.toList) (d : σ) :
    ts.foldl add d = (ts.filterMap ofToken?).foldl put d := by
  induction ts generalizing d with
  | nil => rfl
  | cons t ts ih =>
    obtain ⟨e, he⟩ := Option.isSome_iff_exists.mp (isSome_ofToken? (hkey t List.mem_cons_self))
    rw [List.foldl_cons, List.filterMap_cons_some he, List.foldl_cons, hadd d t e he,
      ih fun u hu => hkey u (List.mem_cons_of_mem _ hu)]

theorem map_key_filterMap {ts : List String} (hkey : ∀ t ∈ ts, '=' ∈ t.toList) :
    (ts.filterMap ofToken?).map key = ts.map keyText := by
  induction ts with
  | nil => rfl
  | cons t ts ih =>
    obtain ⟨e, he⟩ := Option.isSome_iff_exists.mp (isSome_ofToken? (hkey t List.mem_cons_self))
    rw [List.filterMap_cons_some he, List.map_cons, List.map_cons, key_of_ofToken? he,
      ih fun u hu => hkey u (List.mem_cons_of_mem _ hu)]

/-- Tokens of which each has a key of its own can be taken in any order. -/
theorem SetsByKey.foldl_tokens (h : SetsByKey put keys) {add : σ → String → σ}
    (hadd : ∀ d t e, ofToken? t = some e → add d t = put d e) {ts us : List String}
    (hperm : ts.Perm us) (hkey : ∀ t ∈ ts, '=' ∈ t.toList) (distinct : (ts.map keyText).Nodup)
    (d : σ) : ts.foldl add d = us.foldl add d := by
  have hkey' : ∀ t ∈ us, '=' ∈ t.toList := fun t ht => hkey t (hperm.mem_iff.mpr ht)
  rw [foldl_filterMap hadd hkey, foldl_filterMap hadd hkey',
    h.foldl_perm (hperm.filterMap _) (by rwa [map_key_filterMap hkey])]

end Keyed

end Entry

/-! ### The keys of each command -/

theorem Check.setsByKey : Entry.SetsByKey Draft.put
    ["ability", "skill", "tool", "vehicle", "dc", "format", "passive", "activity", "rules"] where
  unknown := by
    intro d k v hk
    unfold Draft.put
    split <;> simp_all
  swaps := by
    simp only [List.pairwise_cons, List.forall_mem_cons, List.Pairwise.nil, List.not_mem_nil,
      false_imp_iff, implies_true, and_true]
    and_intros <;> intro d v w <;> rfl

theorem Attack.setsByKey : Entry.SetsByKey Draft.put
    ["formula", "activity", "attackMode", "format", "rules"] where
  unknown := by
    intro d k v hk
    unfold Draft.put
    split <;> simp_all
  swaps := by
    simp only [List.pairwise_cons, List.forall_mem_cons, List.Pairwise.nil, List.not_mem_nil,
      false_imp_iff, implies_true, and_true]
    and_intros <;> intro d v w <;> rfl

theorem Damage.setsByKey : Entry.SetsByKey put
    ["formula", "type", "average", "activity", "format"] where
  unknown := by
    intro d k v hk
    unfold put
    split <;> simp_all
  swaps := by
    simp only [List.pairwise_cons, List.forall_mem_cons, List.Pairwise.nil, List.not_mem_nil,
      false_imp_iff, implies_true, and_true]
    and_intros <;> intro d v w <;> rfl

theorem Heal.setsByKey : Entry.SetsByKey put
    ["formula", "type", "average", "activity", "format"] where
  unknown := by
    intro d k v hk
    unfold put
    split <;> simp_all
  swaps := by
    simp only [List.pairwise_cons, List.forall_mem_cons, List.Pairwise.nil, List.not_mem_nil,
      false_imp_iff, implies_true, and_true]
    and_intros <;> intro d v w <;> rfl

theorem Save.setsByKey : Entry.SetsByKey Draft.put ["ability", "dc", "format", "activity"] where
  unknown := by
    intro d k v hk
    unfold Draft.put
    split <;> simp_all
  swaps := by
    simp only [List.pairwise_cons, List.forall_mem_cons, List.Pairwise.nil, List.not_mem_nil,
      false_imp_iff, implies_true, and_true]
    and_intros <;> intro d v w <;> rfl

/-! ### Bodies and commands -/

/-- A body in which each token has a key of its own is read as the same command in any order. -/
theorem Command.read_perm {k : Kind} (hk : k ∉ [.item, .roll, .reference]) {b c : String}
    (perm : (Token.split b).Perm (Token.split c)) (hkey : ∀ t ∈ Token.split b, '=' ∈ t.toList)
    (distinct : ((Token.split b).map Entry.keyText).Nodup) : read k none b = read k none c := by
  have hcheck : ∀ kind, Check.read kind b = Check.read kind c := fun kind =>
    congrArg Check.Draft.finish
      (Check.setsByKey.foldl_tokens (Check.add_of_ofToken? kind) perm hkey distinct {})
  have hattack : Attack.read b = Attack.read c :=
    congrArg Attack.Draft.finish
      (Attack.setsByKey.foldl_tokens Attack.add_of_ofToken? perm hkey distinct {})
  have hsave : Save.read b = Save.read c :=
    congrArg Save.Draft.finish
      (Save.setsByKey.foldl_tokens Save.add_of_ofToken? perm hkey distinct {})
  -- damage and healing ask the first token whether it has a key, and it has one in any order
  have hfirst : ∀ t ∈ (Token.split b).head?, '=' ∈ t.toList :=
    fun t ht => hkey t (List.mem_of_head? ht)
  have hfirst' : ∀ t ∈ (Token.split c).head?, '=' ∈ t.toList :=
    fun t ht => hkey t (perm.mem_iff.mpr (List.mem_of_head? ht))
  have hdamage : Damage.read b = Damage.read c := by
    rw [Damage.read_of_key rfl hfirst, Damage.read_of_key rfl hfirst',
      Damage.setsByKey.foldl_tokens Damage.add_of_ofToken? perm hkey distinct]
  have hheal : Heal.read b = Heal.read c := by
    rw [Heal.read_of_key rfl hfirst, Heal.read_of_key rfl hfirst',
      Heal.setsByKey.foldl_tokens Heal.add_of_ofToken? perm hkey distinct]
  cases k with
  | check | skill | tool => exact congrArg check (hcheck _)
  | attack => exact congrArg attack hattack
  | damage => exact congrArg damage hdamage
  | heal => exact congrArg heal hheal
  | save | concentration => exact congrArg save hsave
  | item | roll | reference => simp at hk

namespace Occurrence

/-- A token with a key. It stays in one piece, its quotes are closed, and the command is not. -/
structure IsKeyed (t : String) : Prop where
  single : Token.split t = [t]
  balanced : Token.IsBalanced t.toList
  closed : ']' ∉ t.toList
  key : '=' ∈ t.toList

/-- Tokens with keys are read as the same command in any order, if no two keys are the same. -/
theorem first?_perm {k : Kind} (hk : k ∉ [.item, .roll, .reference]) {ts us : List String}
    (hts : ∀ t ∈ ts, IsKeyed t) (distinct : (ts.map Entry.keyText).Nodup) (perm : ts.Perm us) :
    ∃ c, first? (bracketed (Keyword.word k) ts) =
        some (whole k c (bracketed (Keyword.word k) ts)) ∧
      first? (bracketed (Keyword.word k) us) =
        some (whole k c (bracketed (Keyword.word k) us)) := by
  have hheading : Heading.ofKind k ∈ Heading.all := by
    revert hk
    cases k <;> decide
  have hus : ∀ t ∈ us, IsKeyed t := fun t ht => hts t (perm.mem_iff.mpr ht)
  obtain ⟨b, hb, hfound⟩ := first?_of_balanced hheading (fun t ht => (hts t ht).closed)
    fun t ht => (hts t ht).balanced
  obtain ⟨c, hc, hfound'⟩ := first?_of_balanced hheading (fun t ht => (hus t ht).closed)
    fun t ht => (hus t ht).balanced
  rw [Token.flatMap_split fun t ht => (hts t ht).single] at hb
  rw [Token.flatMap_split fun t ht => (hus t ht).single] at hc
  -- each text is read from its own body, and the bodies have the same tokens in two orders
  have hread : Command.read k none b = Command.read k none c := by
    refine Command.read_perm hk ?_ ?_ ?_
    · rwa [hb, hc]
    · rw [hb]
      exact fun t ht => (hts t ht).key
    · rwa [hb]
  refine ⟨Command.read k none b, hfound, ?_⟩
  rw [hread]
  exact hfound'

/-- A list of skills, a value in quotes with an equals sign in it, and keys that are not known. -/
theorem first?_perm_sneak :
    let ts := ["dc=15", "skill=prc/lore", "activity=\"Sneak = Attack\"", "colour=", "=="]
    let us := ["==", "activity=\"Sneak = Attack\"", "skill=prc/lore", "colour=", "dc=15"]
    (∀ t ∈ ts, IsKeyed t) ∧ (ts.map Entry.keyText).Nodup ∧ ts.Perm us ∧
      bracketed (Keyword.word Kind.check) ts =
        "[[/check dc=15 skill=prc/lore activity=\"Sneak = Attack\" colour= ==]]" ∧
      ∃ c, first? (bracketed (Keyword.word Kind.check) ts) =
          some (whole .check c (bracketed (Keyword.word Kind.check) ts)) ∧
        first? (bracketed (Keyword.word Kind.check) us) =
          some (whole .check c (bracketed (Keyword.word Kind.check) us)) := by
  intro ts us
  have hts : ∀ t ∈ ts, IsKeyed t := by
    simp only [ts, List.forall_mem_cons, List.not_mem_nil, false_imp_iff, implies_true, and_true]
    and_intros <;> exact ⟨by decide, rfl, by decide, by decide⟩
  have distinct : (ts.map Entry.keyText).Nodup := by decide
  have perm : ts.Perm us := by decide
  exact ⟨hts, distinct, perm, by decide +kernel, first?_perm (by decide) hts distinct perm⟩

end Occurrence

end RollMarkup
