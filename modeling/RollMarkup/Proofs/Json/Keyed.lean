import Mathlib

/-!
# Values with keys

In a list where no key comes twice, the value that is found under a key is the one that stands there with
it (`lookup_eq_some_iff`), in whatever order the list is (`lookup_perm`).
-/

namespace RollMarkup.Keyed

variable {β : Type} {ms ns : List (String × β)} {key : String}

theorem lookup_eq_none (h : key ∉ ms.map Prod.fst) : ms.lookup key = none := by
  rw [List.lookup_eq_none_iff]
  intro m hm
  rw [bne_iff_ne]
  rintro rfl
  exact h (List.mem_map_of_mem hm)

theorem lookup_eq_some_iff (hms : (ms.map Prod.fst).Nodup) {v : β} :
    ms.lookup key = some v ↔ (key, v) ∈ ms := by
  constructor
  · intro h
    obtain ⟨front, behind, rfl, -⟩ := List.lookup_eq_some_iff.mp h
    simp
  · intro h
    obtain ⟨front, behind, rfl⟩ := List.append_of_mem h
    refine List.lookup_eq_some_iff.mpr ⟨front, behind, rfl, fun m hm => ?_⟩
    rw [bne_iff_ne]
    rintro rfl
    rw [List.map_append, List.nodup_append] at hms
    exact hms.2.2 m.1 (List.mem_map_of_mem hm) m.1 (by simp) rfl

theorem lookup_perm (h : ms.Perm ns) (hms : (ms.map Prod.fst).Nodup) :
    ms.lookup key = ns.lookup key := by
  have hns : (ns.map Prod.fst).Nodup := (h.map Prod.fst).nodup_iff.mp hms
  refine Option.ext fun v => ?_
  rw [lookup_eq_some_iff hms, lookup_eq_some_iff hns, h.mem_iff]

end RollMarkup.Keyed
