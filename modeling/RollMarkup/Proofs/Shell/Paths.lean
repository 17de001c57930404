import Mathlib
import RollMarkup.Proofs.Json.Keyed
import RollMarkup.Proofs.Shell.Folder

/-!
# Paths below a folder

Where a path leads to a folder, the path of an item in that folder leads to the item, and so the path of
a file leads to the file however deep it lies (`resolve?_pathTo`).
-/

namespace RollMarkup.Shell

namespace Entry

/-- A name that can stand in a path: no slash is in it, and it names no folder by its place. -/
def IsName (name : String) : Prop :=
  name ∉ ["", ".", ".."] ∧ '/' ∉ name.toList

instance (name : String) : Decidable (IsName name) :=
  inferInstanceAs (Decidable (name ∉ ["", ".", ".."] ∧ '/' ∉ name.toList))

/-- The names of a path. -/
def namesOf (path : String) : List String :=
  (path.toList.splitOn '/').map String.ofList

/-- From a folder a name leads to itself, upwards, or to an item. -/
theorem follow_cons (items : List (String × Entry)) (above : List Entry) (name : String)
    (names : List String) :
    follow (folder items) above (name :: names) =
      if name = "" ∨ name = "." then follow (folder items) above names
      else if name = ".." then
        match above with
        | [] => none
        | parent :: above => follow parent above names
      else (items.lookup name).bind fun next => follow next (folder items :: above) names :=
  rfl

/-- A name that leads upwards is the only one for which the folders above count. -/
theorem follow_append {names : List String} (hnames : ".." ∉ names) (current : Entry)
    (above : List Entry) (front : List String) :
    follow current above (front ++ names) =
      (follow current above front).bind fun e => follow e [] names := by
  -- the names behind never lead upwards, so that the folders above may be forgotten
  have hdown : ∀ (ns : List String) (e : Entry) (above above' : List Entry), ".." ∉ ns →
      follow e above ns = follow e above' ns := by
    intro ns
    induction ns with
    | nil => intro e above above' _; rfl
    | cons n ns ih =>
      intro e above above' hns
      rw [List.mem_cons, not_or] at hns
      cases e with
      | file c => rfl
      | folder items =>
        rw [follow_cons, follow_cons, if_neg (Ne.symm hns.1), if_neg (Ne.symm hns.1)]
        split
        · exact ih _ _ _ hns.2
        · exact congrArg _ (funext fun next => ih next _ _ hns.2)
  induction front generalizing current above with
  | nil => exact hdown names current above [] hnames
  | cons n front ih =>
    rw [List.cons_append]
    cases current with
    | file c => rfl
    | folder items =>
      rw [follow_cons, follow_cons]
      split
      · exact ih _ _
      split
      · cases above with
        | nil => rfl
        | cons parent above => exact ih _ _
      · rw [Option.bind_assoc]
        exact congrArg _ (funext fun next => ih next _)

theorem namesOf_append_slash (front : List Char) (name : String) (hname : '/' ∉ name.toList) :
    namesOf (String.ofList (front ++ '/' :: name.toList)) =
      (front.splitOn '/').map String.ofList ++ [name] := by
  rw [namesOf, String.toList_ofList, List.splitOn_append_cons_self, List.splitOn_eq_singleton hname,
    List.map_append, List.map_singleton, String.ofList_toList]

/-- The path of an item leads to where its name leads from the folder. -/
theorem follow_joinPath {root : Entry} {path name : String} (hname : IsName name) :
    follow root [] (namesOf (joinPath path name)) =
      (follow root [] (namesOf path)).bind fun e => follow e [] [name] := by
  have hup : ".." ∉ [name] := by
    intro h
    exact hname.1 (by simp [← List.mem_singleton.mp h])
  rw [joinPath]
  split
  next hlast =>
    -- behind the slash at the end of the path stands an empty name, which leads nowhere
    obtain ⟨front, hfront⟩ := List.getLast?_eq_some_iff.mp hlast
    have hjoin : path ++ name = String.ofList (front ++ '/' :: name.toList) := by
      rw [← String.toList_inj, String.toList_append, hfront, String.toList_ofList]
      simp
    have hpath : namesOf path = (front.splitOn '/').map String.ofList ++ [""] := by
      rw [namesOf, hfront, List.splitOn_append_cons_self, List.map_append]
      rfl
    have hstay : ∀ e : Entry, (follow e [] [""]).bind (fun e => follow e [] [name]) =
        follow e [] [name] := by
      intro e
      cases e <;> rfl
    rw [hjoin, namesOf_append_slash front name hname.2, hpath, follow_append hup,
      follow_append (by decide), Option.bind_assoc]
    exact congrArg _ (funext fun e => (hstay e).symm)
  next =>
    have hjoin : path ++ "/" ++ name = String.ofList (path.toList ++ '/' :: name.toList) := by
      rw [← String.toList_inj, String.toList_append, String.toList_append, String.toList_ofList]
      simp
    rw [hjoin, namesOf_append_slash path.toList name hname.2, follow_append hup]
    rfl

/-- A path that leads to a folder leads, with a name behind it, to the item of that name. -/
theorem resolve?_joinPath {root : Entry} {path name : String} {items : List (String × Entry)}
    (hpath : root.resolve? path = some (folder items)) (hname : IsName name) :
    root.resolve? (joinPath path name) = items.lookup name := by
  rw [resolve?] at hpath
  split at hpath
  · cases hpath
  next hrelative =>
    rw [not_or] at hrelative
    obtain ⟨c, cs, hcs⟩ : ∃ c cs, path.toList = c :: cs :=
      List.exists_cons_of_ne_nil (by simpa using hrelative.1)
    -- the joined path begins as the path does, so that it is relative too
    have hhead : (joinPath path name).toList.head? = some c := by
      rw [joinPath]
      split <;> simp [hcs]
    have hjoin : ¬ (joinPath path name = "" ∨ (joinPath path name).toList.head? = some '/') := by
      rw [hcs, List.head?_cons] at hrelative
      rw [not_or, hhead]
      refine ⟨fun hempty => ?_, hrelative.2⟩
      rw [hempty] at hhead
      cases hhead
    have hfollow : follow root [] (namesOf (joinPath path name)) = _ := follow_joinPath hname
    rw [namesOf, namesOf, hpath, Option.bind_some, follow_cons, if_neg, if_neg] at hfollow
    · rw [resolve?, if_neg hjoin, hfollow]
      cases items.lookup name <;> rfl
    · rintro rfl
      exact hname.1 (by simp)
    · rintro (rfl | rfl)
      · exact hname.1 (by simp)
      · exact hname.1 (by simp)

/-- A path that leads to an entry leads, with the names of a file in it behind, to that file. -/
theorem resolve?_pathTo {root e : Entry} {path : String} {names : List String}
    {content : ByteArray} (hpath : root.resolve? path = some e) (he : e.HasDistinctNames)
    (hleads : e.LeadsTo names content) (hnames : ∀ name ∈ names, IsName name) :
    root.resolve? (pathTo path names) = some (file content) := by
  induction hleads generalizing path with
  | file content => exact hpath
  | @folder items name e names content hi _ ih =>
    cases he with
    | folder hdistinct hitems =>
      have hitem : root.resolve? (joinPath path name) = some e := by
        rw [resolve?_joinPath hpath (hnames name List.mem_cons_self),
          (Keyed.lookup_eq_some_iff hdistinct).mpr hi]
      exact ih hitem (hitems _ hi) fun n hn => hnames n (List.mem_cons_of_mem _ hn)

end Entry

end RollMarkup.Shell
