import Mathlib
import RollMarkup.Proofs.Text.Bytes
import RollMarkup.Shell.Files

/-!
# The documents in a folder

The documents that are checked in a folder are the files in it, however deep, whose names end like those
of documents (`mem_walk_folder`). Each of them is there once, and they come in the order of their paths,
name by name and byte by byte (`pairwise_walk_sorted`).
-/

namespace RollMarkup.Shell

/-! ### Names of documents -/

/-- An extension is what stands behind the last dot of a name that does not begin with that dot. -/
theorem extension?_eq_some_iff {name e : String} (he : '.' ∉ e.toList) :
    extension? name = some e ↔ ∃ stem, stem ≠ "" ∧ name = stem ++ "." ++ e := by
  constructor
  · intro h
    rw [extension?] at h
    split at h
    next c cs hdrop =>
      have hname := List.takeWhile_append_dropWhile (p := (· ≠ '.')) (l := name.toList.reverse)
      rw [hdrop] at hname
      generalize name.toList.reverse.takeWhile (· ≠ '.') = front at h hname
      refine ⟨String.ofList (c :: cs).reverse, by simp, ?_⟩
      rw [← Option.some.inj h, ← String.toList_inj, List.reverse_eq_iff.mp hname.symm]
      simp
    · cases h
  · rintro ⟨stem, hstem, rfl⟩
    -- from the end, the name is the extension, a dot and then at least one character more
    obtain ⟨c, cs, hcs⟩ : ∃ c cs, stem.toList.reverse = c :: cs :=
      List.exists_cons_of_ne_nil (by simpa using hstem)
    have hreverse : (stem ++ "." ++ e).toList.reverse = e.toList.reverse ++ '.' :: c :: cs := by
      simp [← hcs]
    have hdots : ∀ d ∈ e.toList.reverse, decide (d ≠ '.') = true := by
      intro d hd
      rw [decide_eq_true_iff]
      rintro rfl
      exact he (List.mem_reverse.mp hd)
    rw [extension?, hreverse, List.dropWhile_append_of_pos hdots, List.takeWhile_append_of_pos hdots]
    simp

/-- A document has one of three endings, and something in front of it. -/
theorem isDocument_iff {name : String} :
    isDocument name = true ↔
      ∃ stem, stem ≠ "" ∧ ∃ e ∈ ["html", "md", "txt"], name = stem ++ "." ++ e := by
  have hdot : ∀ e ∈ ["html", "md", "txt"], '.' ∉ e.toList := by decide
  rw [isDocument, Option.any_eq_true]
  constructor
  · rintro ⟨e, hext, he⟩
    have hmem : e ∈ ["html", "md", "txt"] := List.contains_iff_mem.mp he
    obtain ⟨stem, hstem, hname⟩ := (extension?_eq_some_iff (hdot e hmem)).mp hext
    exact ⟨stem, hstem, e, hmem, hname⟩
  · rintro ⟨stem, hstem, e, hmem, hname⟩
    exact ⟨e, (extension?_eq_some_iff (hdot e hmem)).mpr ⟨stem, hstem, hname⟩,
      List.contains_iff_mem.mpr hmem⟩

namespace Entry

/-! ### Entries and what is in them -/

/-- What holds of every file, and of a folder if it holds of the items in it, holds of every entry. -/
@[elab_as_elim]
theorem induction {P : Entry → Prop} (file : ∀ content, P (.file content))
    (folder : ∀ items, (∀ i ∈ items, P i.2) → P (.folder items)) (e : Entry) : P e := by
  match e with
  | .file content => exact file content
  | .folder items => exact folder items fun i hi => induction file folder i.2
termination_by sizeOf e
decreasing_by
  have hlt := List.sizeOf_lt_of_mem hi
  obtain ⟨name, e⟩ := i
  simp only [Prod.mk.sizeOf_spec, Entry.folder.sizeOf_spec] at hlt ⊢
  omega

/-- The names lead from an entry to a file with this content. -/
inductive LeadsTo : Entry → List String → ByteArray → Prop where
  | file (content : ByteArray) : LeadsTo (.file content) [] content
  | folder {items : List (String × Entry)} {name : String} {e : Entry} {names : List String}
      {content : ByteArray} : (name, e) ∈ items → LeadsTo e names content →
      LeadsTo (.folder items) (name :: names) content

/-- No two items of one folder have the same name. -/
inductive HasDistinctNames : Entry → Prop where
  | file (content : ByteArray) : HasDistinctNames (.file content)
  | folder {items : List (String × Entry)} : (items.map Prod.fst).Nodup →
      (∀ i ∈ items, HasDistinctNames i.2) → HasDistinctNames (.folder items)

mutual

/-- The files of an entry that are checked, with the names that lead to them from the entry. -/
def walk (named : Bool) : Entry → List (List String × ByteArray)
  | .file content => if named then [([], content)] else []
  | .folder items => walkItems items

/-- The documents among the items of a folder and in the folders among them, in the given order. -/
def walkItems : List (String × Entry) → List (List String × ByteArray)
  | [] => []
  | (name, e) :: rest =>
    ((e.walk (isDocument name)).map fun d => (name :: d.1, d.2)) ++ walkItems rest

end

theorem walk_folder (named : Bool) (items : List (String × Entry)) :
    (folder items).walk named =
      items.flatMap fun i => (i.2.walk (isDocument i.1)).map fun d => (i.1 :: d.1, d.2) := by
  rw [walk]
  induction items with
  | nil => rfl
  | cons i items ih => rw [walkItems, ih, List.flatMap_cons]

/-- The path that names lead to from a folder. -/
def pathTo (folder : String) (names : List String) : String :=
  names.foldl joinPath folder

/-- The files that are checked are those of the walk, each under its path. -/
theorem files_eq (named : Bool) (path : String) (e : Entry) :
    e.files named path = (e.walk named).map fun d => (pathTo path d.1, d.2) := by
  induction e using induction generalizing named path with
  | file content => cases named <;> rfl
  | folder items ih =>
    rw [files, walk_folder]
    induction items with
    | nil => rfl
    | cons i items ihs =>
      have hi := ih i List.mem_cons_self
      have hrest := ihs fun j hj => ih j (List.mem_cons_of_mem i hj)
      rw [itemFiles, hi, hrest, List.flatMap_cons, List.map_append, List.map_map]
      rfl

/-- The walk visits the files that names lead to, if the last name is that of a document. -/
theorem mem_walk {named : Bool} {e : Entry} {names : List String} {content : ByteArray} :
    (names, content) ∈ e.walk named ↔
      e.LeadsTo names content ∧ names.getLast?.elim named isDocument = true := by
  -- whether a file counts is told by the last name on its way, which `named` is before the first one
  induction e using induction generalizing named names with
  | file c =>
    cases named with
    | false =>
      refine iff_of_false List.not_mem_nil ?_
      rintro ⟨⟨⟩, h⟩
      cases h
    | true =>
      constructor
      · intro h
        obtain ⟨rfl, rfl⟩ := Prod.mk.inj (List.mem_singleton.mp h)
        exact ⟨.file _, rfl⟩
      · rintro ⟨⟨⟩, -⟩
        exact List.mem_singleton.mpr rfl
  | folder items ih =>
    have hlast : ∀ (name : String) (ns : List String),
        (name :: ns).getLast?.elim named isDocument =
          ns.getLast?.elim (isDocument name) isDocument := by
      intro name ns
      cases ns with
      | nil => rfl
      | cons n ns => rw [List.getLast?_cons_cons, List.getLast?_cons]; rfl
    rw [walk_folder, List.mem_flatMap]
    constructor
    · rintro ⟨⟨name, e⟩, hi, hmem⟩
      obtain ⟨⟨ns, c⟩, hd, heq⟩ := List.mem_map.mp hmem
      obtain ⟨rfl, rfl⟩ := Prod.mk.inj heq
      obtain ⟨hleads, hdoc⟩ := (ih (name, e) hi).mp hd
      exact ⟨.folder hi hleads, (hlast name ns).trans hdoc⟩
    · rintro ⟨hleads, hdoc⟩
      cases hleads with
      | @folder _ name e ns _ hi hleads =>
        refine ⟨(name, e), hi, List.mem_map.mpr ⟨(ns, content), ?_, rfl⟩⟩
        exact (ih (name, e) hi).mpr ⟨hleads, (hlast name ns).symm.trans hdoc⟩

/-- The last of the names is that of a document. -/
def EndsInDocument (names : List String) : Prop :=
  ∃ stem, stem ≠ "" ∧ ∃ e ∈ ["html", "md", "txt"], names.getLast? = some (stem ++ "." ++ e)

/-- The walk of a folder leads to each document below it, and to nothing else. -/
theorem mem_walk_folder {named : Bool} {items : List (String × Entry)} {names : List String}
    {content : ByteArray} :
    (names, content) ∈ (folder items).walk named ↔
      (folder items).LeadsTo names content ∧ EndsInDocument names := by
  rw [mem_walk]
  refine and_congr_right fun hleads => ?_
  cases hleads with
  | @folder _ name e ns _ hi hleads =>
    rw [EndsInDocument, List.getLast?_cons, Option.elim_some, isDocument_iff]
    simp only [Option.some.injEq]

/-! ### The order of the walk -/

theorem sorted_folder (items : List (String × Entry)) :
    (folder items).sorted =
      folder ((items.map fun i => (i.1, i.2.sorted)).mergeSort fun a b => a.1 ≤ b.1) := by
  have hitems : sortedItems items = items.map fun i => (i.1, i.2.sorted) := by
    induction items with
    | nil => rfl
    | cons i items ih => rw [sortedItems, ih, List.map_cons]
  rw [sorted, hitems]

/-- Sorting moves no file. -/
theorem leadsTo_sorted {e : Entry} {names : List String} {content : ByteArray} :
    e.sorted.LeadsTo names content ↔ e.LeadsTo names content := by
  induction e using induction generalizing names with
  | file c => rw [sorted]
  | folder items ih =>
    rw [sorted_folder]
    constructor
    · intro h
      cases h with
      | @folder _ name _ ns _ hmem hleads =>
        obtain ⟨⟨name, e⟩, hi, heq⟩ := List.mem_map.mp (List.mem_mergeSort.mp hmem)
        obtain ⟨rfl, rfl⟩ := Prod.mk.inj heq
        exact .folder hi ((ih (name, e) hi).mp hleads)
    · intro h
      cases h with
      | @folder _ name e ns _ hi hleads =>
        exact .folder (List.mem_mergeSort.mpr (List.mem_map.mpr ⟨(name, e), hi, rfl⟩))
          ((ih (name, e) hi).mpr hleads)

/-- The order of paths: the first names that differ decide, and of these the bytes. -/
def Precedes (names others : List String) : Prop :=
  names.map Text.bytes < others.map Text.bytes

theorem Precedes.cons {names others : List String} (h : Precedes names others) (name : String) :
    Precedes (name :: names) (name :: others) :=
  List.Lex.cons h

theorem precedes_of_lt {name other : String} (h : name < other) (names others : List String) :
    Precedes (name :: names) (other :: others) :=
  List.Lex.rel (Text.bytes_lt h)

/-- Items with different names are, when sorted, in the order of their names. -/
theorem pairwise_mergeSort {items : List (String × Entry)} (h : (items.map Prod.fst).Nodup) :
    (items.mergeSort fun a b => a.1 ≤ b.1).Pairwise fun a b => a.1 < b.1 := by
  have hle : (items.mergeSort fun a b => a.1 ≤ b.1).Pairwise
      fun a b => decide (a.1 ≤ b.1) = true := by
    refine List.pairwise_mergeSort (fun a b c hab hbc => ?_) (fun a b => ?_) items
    · rw [decide_eq_true_iff] at hab hbc ⊢
      exact String.le_trans hab hbc
    · rw [Bool.or_eq_true, decide_eq_true_iff, decide_eq_true_iff]
      exact String.le_total _ _
  have hne : (items.mergeSort fun a b => a.1 ≤ b.1).Pairwise fun a b => a.1 ≠ b.1 := by
    rw [← List.pairwise_map]
    exact ((List.mergeSort_perm items _).map Prod.fst).nodup_iff.mpr h
  -- sorting puts equal names side by side, but there are none
  refine hle.imp₂ (fun a b hab hab' => ?_) hne
  rw [decide_eq_true_iff] at hab
  by_contra hlt
  exact hab' (String.le_antisymm hab hlt)

/-- In a sorted entry each file is visited before those with a greater path. -/
theorem pairwise_walk_sorted {e : Entry} (h : e.HasDistinctNames) (named : Bool) :
    (e.sorted.walk named).Pairwise fun d d' => Precedes d.1 d'.1 := by
  induction e using induction generalizing named with
  | file content => cases named <;> simp [sorted, walk]
  | folder items ih =>
    cases h with
    | folder hnames hitems =>
      rw [sorted_folder, walk_folder, List.pairwise_flatMap]
      -- the files of one item are in order below its name, and those of two items by their names
      constructor
      · intro i hi
        obtain ⟨j, hj, rfl⟩ := List.mem_map.mp (List.mem_mergeSort.mp hi)
        rw [List.pairwise_map]
        exact (ih j hj (hitems j hj) _).imp fun hprec => hprec.cons j.1
      · have hsorted : ((items.map fun i => (i.1, i.2.sorted)).map Prod.fst).Nodup := by
          rw [List.map_map]
          exact hnames
        refine (pairwise_mergeSort hsorted).imp fun hlt d hd d' hd' => ?_
        obtain ⟨b, -, rfl⟩ := List.mem_map.mp hd
        obtain ⟨b', -, rfl⟩ := List.mem_map.mp hd'
        exact precedes_of_lt hlt b.1 b'.1

end Entry

end RollMarkup.Shell
