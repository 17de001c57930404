import Mathlib
import RollMarkup.Proofs.Json.Keyed
import RollMarkup.Proofs.Json.Reading

/-!
# Values with rearranged members

A JSON value keeps its meaning when the members of its objects are put into another order, as long as no
key comes twice: then the same values are found under the same keys (`Rearranges`). Sorting by keys is
such a change (`rearranges_sorted`), and so is none at all.
-/

namespace RollMarkup.Json

/-- A change of the order in which the members of objects come, in a value and in all that is in it. -/
structure Rearranges (f : Json → Json) : Prop where
  bool : ∀ b, f (bool b) = Json.bool b
  int : ∀ n, f (int n) = Json.int n
  str : ∀ s, f (str s) = Json.str s
  list : ∀ vs, f (list vs) = Json.list (vs.map f)
  object : ∀ ms, (ms.map Prod.fst).Nodup →
    ∃ ns, f (object ms) = Json.object ns ∧ ∀ key, ns.lookup key = (ms.lookup key).map f

theorem rearranges_id : Rearranges id where
  bool _ := rfl
  int _ := rfl
  str _ := rfl
  list vs := by rw [List.map_id, id]
  object ms _ := ⟨ms, rfl, fun key => by rw [Option.map_id]; rfl⟩

/-- A member that is put in is found under its key, and hides no other one. -/
theorem lookup_insertMember (key k : String) (v : Json) (members : List (String × Json)) :
    (insertMember k v members).lookup key = if key = k then some v else members.lookup key := by
  have hfirst (rest : List (String × Json)) :
      ((k, v) :: rest).lookup key = if key = k then some v else rest.lookup key := by
    rw [List.lookup_cons]
    split
    next h => rw [if_pos (beq_iff_eq.mp h)]
    next h => rw [if_neg (beq_eq_false_iff_ne.mp h)]
  induction members with
  | nil => exact hfirst []
  | cons m ms ih =>
    rw [insertMember]
    split
    · exact hfirst (m :: ms)
    split
    next heq =>
      -- the member that is replaced has no other key
      rw [hfirst ms, List.lookup_cons, ← heq]
      split
      next => rfl
      next h => rw [beq_eq_false_iff_ne.mpr h]
    next hne =>
      rw [List.lookup_cons, ih, List.lookup_cons]
      split
      next h => rw [if_neg fun hk => hne (hk.symm.trans (beq_iff_eq.mp h))]
      next => rfl

/-- Sorting keeps each member under its key. -/
theorem lookup_sortedMembers {ms : List (String × Json)} (hms : (ms.map Prod.fst).Nodup)
    (members : List (String × Json)) (key : String) :
    (sortedMembers members ms).lookup key =
      ((ms.lookup key).map sorted).or (members.lookup key) := by
  induction ms generalizing members with
  | nil => rfl
  | cons m ms ih =>
    obtain ⟨hm, hms⟩ := List.nodup_cons.mp hms
    rw [sortedMembers, ih hms, lookup_insertMember, List.lookup_cons]
    by_cases h : key = m.1
    · -- no later member has the key
      subst h
      rw [Keyed.lookup_eq_none hm, if_pos rfl, beq_self_eq_true]
      rfl
    · have hne : (key == m.1) = false := beq_eq_false_iff_ne.mpr h
      rw [if_neg h, hne]

theorem sortedItems_eq (vs : List Json) : sortedItems vs = vs.map sorted := by
  induction vs with
  | nil => rfl
  | cons v vs ih => rw [sortedItems, ih, List.map_cons]

theorem rearranges_sorted : Rearranges sorted where
  bool _ := rfl
  int _ := rfl
  str _ := rfl
  list vs := by rw [sorted, sortedItems_eq]
  object ms hms := by
    refine ⟨sortedMembers [] ms, rfl, fun key => ?_⟩
    rw [lookup_sortedMembers hms, List.lookup_nil, Option.or_none]

end RollMarkup.Json
