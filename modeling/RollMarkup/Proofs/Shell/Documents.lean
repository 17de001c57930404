import Mathlib
import RollMarkup.Proofs.Shell.Paths
import RollMarkup.Proofs.Token.Entry
import RollMarkup.Shell.Run

/-!
# Checking a folder

A folder is checked by checking its documents one after another: what is written about it is what is
written about each of them, and it passes if each of them passes (`run_lint_folder`). A document that is
no text ends the check.
-/

namespace RollMarkup.Shell

variable {h : House}

/-! ### Reports -/

/-- A file that holds text in UTF-8. -/
def IsText (content : ByteArray) : Prop :=
  (String.fromUTF8? content).isSome = true

instance (content : ByteArray) : Decidable (IsText content) :=
  inferInstanceAs (Decidable (_ = true))

/-- The report about one file. -/
def fileReport (h : House) (f : String × ByteArray) : Report :=
  report h [f]

/-- Behind a file that holds text the report goes on, and there is nothing unreadable before. -/
theorem report_cons {f : String × ByteArray} (hf : IsText f.2) (fs : List (String × ByteArray)) :
    report h (f :: fs) =
        { stdout := (fileReport h f).stdout ++ (report h fs).stdout
          failures := (fileReport h f).failures + (report h fs).failures
          unreadable := (report h fs).unreadable } ∧
      (fileReport h f).unreadable = none := by
  obtain ⟨path, content⟩ := f
  obtain ⟨document, hdocument⟩ := Option.isSome_iff_exists.mp hf
  have hfile : report h ((path, content) :: fs) =
      { stdout := (documentReport h path document).stdout ++ (report h fs).stdout
        failures := (documentReport h path document).failures + (report h fs).failures
        unreadable := (report h fs).unreadable } := by
    rw [report, hdocument]
  have hlone : fileReport h (path, content) =
      { stdout := (documentReport h path document).stdout
        failures := (documentReport h path document).failures } := by
    rw [fileReport, report, hdocument]
    simp [report]
  rw [hfile, hlone]
  exact ⟨rfl, rfl⟩

/-- Files that hold text are reported on one by one, and then what follows them. -/
theorem report_append {fs : List (String × ByteArray)} (hfs : ∀ f ∈ fs, IsText f.2)
    (gs : List (String × ByteArray)) :
    report h (fs ++ gs) =
      { stdout := String.join (fs.map fun f => (fileReport h f).stdout) ++ (report h gs).stdout
        failures := (fs.map fun f => (fileReport h f).failures).sum + (report h gs).failures
        unreadable := (report h gs).unreadable } := by
  induction fs with
  | nil => simp
  | cons f fs ih =>
    obtain ⟨hf, hrest⟩ := List.forall_mem_cons.mp hfs
    rw [List.cons_append, (report_cons hf _).1, ih hrest]
    simp only [List.map_cons, String.join_cons, List.sum_cons, String.append_assoc, Nat.add_assoc]

/-- A file that holds no text ends the report. -/
theorem report_of_not_isText {f : String × ByteArray} (hf : ¬ IsText f.2)
    (fs : List (String × ByteArray)) : report h (f :: fs) = { unreadable := some f.1 } := by
  have hnone : String.fromUTF8? f.2 = none := by simpa [IsText] using hf
  rw [report, hnone]

/-! ### Responses -/

/-- The response prints what was reported. -/
theorem stdout_filesResponse (h : House) (path : String) (fs : List (String × ByteArray)) :
    (filesResponse h path fs).stdout = (report h fs).stdout := by
  rw [filesResponse]
  split
  · rfl
  · split <;> rfl

/-- The exit code is zero exactly if every file could be read and nothing failed. -/
theorem code_filesResponse (h : House) (path : String) (fs : List (String × ByteArray)) :
    (filesResponse h path fs).code =
      if (report h fs).unreadable = none ∧ (report h fs).failures = 0 then 0 else 1 := by
  rw [filesResponse]
  split
  next file hfile =>
    rw [if_neg fun hok => by simp [hfile] at hok]
    rfl
  next hnone =>
    simp only [hnone, true_and]
    split <;> rfl

/-- Files that hold text are checked as each of them is alone. -/
theorem filesResponse_texts {fs : List (String × ByteArray)} (hfs : ∀ f ∈ fs, IsText f.2)
    (path : String) :
    (filesResponse h path fs).stdout =
        String.join (fs.map fun f => (filesResponse h f.1 [f]).stdout) ∧
      ((filesResponse h path fs).code = 0 ↔ ∀ f ∈ fs, (filesResponse h f.1 [f]).code = 0) := by
  have hreport := report_append (h := h) hfs []
  rw [List.append_nil] at hreport
  have hnone : ∀ f ∈ fs, (fileReport h f).unreadable = none :=
    fun f hf => (report_cons (hfs f hf) []).2
  constructor
  · simp only [stdout_filesResponse]
    rw [hreport]
    simp [report, fileReport]
  · have hlone : ∀ f ∈ fs, (filesResponse h f.1 [f]).code = 0 ↔ (fileReport h f).failures = 0 := by
      intro f hf
      rw [code_filesResponse, ite_eq_left_iff]
      have hf' : (report h [f]).unreadable = none := hnone f hf
      simp [hf', fileReport]
    rw [code_filesResponse, hreport, ite_eq_left_iff]
    simp only [report, Nat.add_zero, true_and, one_ne_zero, imp_false, not_not,
      List.sum_eq_zero_iff, List.forall_mem_map]
    exact forall₂_congr fun f hf => (hlone f hf).symm

/-- A file that holds no text ends the check behind the files before it. -/
theorem filesResponse_of_not_isText {fs : List (String × ByteArray)} (hfs : ∀ f ∈ fs, IsText f.2)
    {g : String × ByteArray} (hg : ¬ IsText g.2) (gs : List (String × ByteArray)) (path : String) :
    (filesResponse h path (fs ++ g :: gs)).stdout =
        String.join (fs.map fun f => (filesResponse h f.1 [f]).stdout) ∧
      (filesResponse h path (fs ++ g :: gs)).code = 1 := by
  have hreport := report_append (h := h) hfs (g :: gs)
  rw [report_of_not_isText hg] at hreport
  constructor
  · simp only [stdout_filesResponse]
    rw [hreport]
    simp [fileReport]
  · rw [code_filesResponse, hreport]
    rfl

/-! ### The program -/

/-- The arguments with which a path is checked. Behind two dashes the path is no option, whatever it
looks like. -/
def lintArguments (config : Option String) (deny : Bool) (path : String) : List String :=
  "lint" :: (config.toList.map ("--config" ++ "=" ++ ·) ++
    ((if deny then ["--deny-noncanonical"] else []) ++ ["--", path]))

/-- The house rules that a check goes by. -/
def houseOf (lookup : String → Option Entry) (config : Option String) (deny : Bool) : House :=
  let h : House :=
    match config with
    | some file => House.loadOrDefault ((lookup file).bind Entry.content?)
    | none => {}
  { h with strict := h.strict || deny }

section Arguments

open Arguments Invocation

/-- Behind two dashes stands the path. -/
theorem sort_path {path : String} (hpath : path ≠ "") (a : Arguments) (ha : a.operand = none) :
    sort lintForm a ["--", path] = .ok { a with operand := some path } := by
  have hadd : addOperand lintForm a path = .ok { a with operand := some path } := by
    have haccepts : lintForm.operand.accepts path = true := decide_eq_true hpath
    rw [addOperand, ha, haccepts]
    rfl
  unfold sort
  rw [if_pos rfl, List.foldlM_cons, hadd]
  rfl

/-- The option that makes the rules strict is a flag. -/
theorem sort_deny (deny : Bool) (a : Arguments) (ha : a.flags = []) (rest : List String) :
    sort lintForm a ((if deny then ["--deny-noncanonical"] else []) ++ rest) =
      sort lintForm { a with flags := if deny then ["--deny-noncanonical"] else [] } rest := by
  obtain ⟨operand, values, flags⟩ := a
  subst ha
  cases deny with
  | false => rfl
  | true =>
    rw [if_pos rfl, List.singleton_append]
    conv_lhs => unfold sort
    rw [if_neg (by decide), if_neg (by decide), if_neg (by decide), if_pos (by decide)]
    rfl

/-- An option with a value behind an equals sign is another text than one without that sign. -/
theorem option_ne {word : String} (hword : '=' ∉ word.toList) (name value : String) :
    name ++ "=" ++ value ≠ word := by
  rintro rfl
  simp at hword

/-- The option with the file of the rules has a value, behind its equals sign. -/
theorem sort_config {config : Option String} (hconfig : ∀ file ∈ config, file ≠ "")
    (rest : List String) :
    sort lintForm {} (config.toList.map ("--config" ++ "=" ++ ·) ++ rest) =
      sort lintForm { values := config.toList.map ("--config", ·) } rest := by
  cases config with
  | none => rfl
  | some file =>
    have hchars : ("--config" ++ "=" ++ file).toList = "--config=".toList ++ file.toList := by
      simp
    have hoption : isOption ("--config" ++ "=" ++ file) = true := by
      rw [isOption, hchars]
      rfl
    have hhelp : asksHelp ("--config" ++ "=" ++ file) = false := by
      rw [asksHelp, hchars, beq_eq_false_iff_ne.mpr (option_ne (by decide) _ _)]
      rfl
    have hflag : "--config" ++ "=" ++ file ∉ lintForm.flags := fun hmem =>
      option_ne (by decide) _ _ (List.mem_singleton.mp hmem)
    have hcut : cutValue? ("--config" ++ "=" ++ file) = some ("--config", file) :=
      Text.cut?_append (c := '=') (by decide) file
    have hadd : addValue lintForm {} "--config" file = .ok { values := [("--config", file)] } := by
      have haccepts : ArgumentType.path.accepts file = true := decide_eq_true (hconfig file rfl)
      rw [addValue, if_neg]
      show ¬ ((none : Option String).isSome || !(ArgumentType.path.accepts file)) = true
      rw [haccepts]
      decide
    rw [Option.toList_some, List.map_singleton, List.singleton_append]
    conv_lhs => unfold sort
    rw [if_neg (option_ne (by decide) _ _), hoption, hhelp, if_neg hflag, hcut]
    show (addValue lintForm {} "--config" file).bind (fun a => sort lintForm a rest) = _
    rw [hadd]
    rfl

end Arguments

/-- A check is asked for by its arguments. -/
theorem ofArguments_lint {config : Option String} (hconfig : ∀ file ∈ config, file ≠ "")
    (deny : Bool) {path : String} (hpath : path ≠ "") :
    Invocation.ofArguments (lintArguments config deny path) = .ok (.lint path config deny) := by
  rw [lintArguments, Invocation.ofArguments, Invocation.ofLint, Arguments.read,
    sort_config hconfig, sort_deny deny _ rfl, sort_path hpath _ rfl]
  cases config <;> cases deny <;> rfl

/-! ### Checks -/

section Checks

variable {config : Option String} {deny : Bool} {path : String} {lookup : String → Option Entry}

/-- A file is checked whatever its name. -/
theorem run_lint_file (hconfig : ∀ file ∈ config, file ≠ "") (hpath : path ≠ "")
    {content : ByteArray} (hfile : lookup path = some (.file content)) (stdin : ByteArray) :
    run (lintArguments config deny path) stdin lookup =
      filesResponse (houseOf lookup config deny) path [(path, content)] := by
  rw [run, ofArguments_lint hconfig deny hpath]
  show checkResponse lookup path config deny = _
  unfold checkResponse
  rw [hfile]
  rfl

/-- The documents that a check of a folder visits: the names that lead to them, and their bytes. -/
def visits (items : List (String × Entry)) : List (List String × ByteArray) :=
  (Entry.folder items).sorted.walk true

theorem run_lint_items (hconfig : ∀ file ∈ config, file ≠ "") (hpath : path ≠ "")
    {items : List (String × Entry)} (hfolder : lookup path = some (.folder items))
    (stdin : ByteArray) :
    run (lintArguments config deny path) stdin lookup =
      filesResponse (houseOf lookup config deny) path
        ((visits items).map fun d => (Entry.pathTo path d.1, d.2)) := by
  rw [run, ofArguments_lint hconfig deny hpath]
  show checkResponse lookup path config deny = _
  unfold checkResponse
  rw [hfolder, visits, ← Entry.files_eq]
  rfl

end Checks

/-! ### Folders -/

theorem pathTo_ne_empty {dir : String} (hdir : dir ≠ "") (names : List String) :
    Entry.pathTo dir names ≠ "" := by
  induction names generalizing dir with
  | nil => exact hdir
  | cons name names ih =>
    refine ih ?_
    rw [joinPath]
    split <;> simp [hdir]

/-- A path leads to a folder of these items, and the paths below it lead to the files in it. -/
structure Holds (lookup : String → Option Entry) (dir : String) (items : List (String × Entry)) :
    Prop where
  ne_empty : dir ≠ ""
  lookup_dir : lookup dir = some (.folder items)
  hasDistinctNames : (Entry.folder items).HasDistinctNames
  lookup_file : ∀ names content, (Entry.folder items).LeadsTo names content →
    lookup (Entry.pathTo dir names) = some (.file content)

/-- Paths from a root folder lead to what is below a folder. -/
theorem holds_resolve? {root : Entry} {dir : String} {items : List (String × Entry)}
    (hdir : root.resolve? dir = some (.folder items))
    (hdistinct : (Entry.folder items).HasDistinctNames)
    (hnames : ∀ names content, (Entry.folder items).LeadsTo names content →
      ∀ name ∈ names, Entry.IsName name) :
    Holds root.resolve? dir items where
  ne_empty := by
    rintro rfl
    cases hdir
  lookup_dir := hdir
  hasDistinctNames := hdistinct
  lookup_file names content hleads :=
    Entry.resolve?_pathTo hdir hdistinct hleads (hnames names content hleads)

/-- The documents that are visited are the files below a folder whose names end as those of
documents do. -/
theorem mem_visits {items : List (String × Entry)} {names : List String} {content : ByteArray} :
    (names, content) ∈ visits items ↔
      (Entry.folder items).LeadsTo names content ∧ Entry.EndsInDocument names := by
  obtain ⟨sorted, hsorted⟩ : ∃ sorted, (Entry.folder items).sorted = .folder sorted :=
    ⟨_, Entry.sorted_folder items⟩
  rw [visits, ← Entry.leadsTo_sorted, hsorted, Entry.mem_walk_folder]

/-- No path precedes itself, so the files that are visited have different paths. -/
theorem nodup_visits {items : List (String × Entry)}
    (h : (Entry.folder items).HasDistinctNames) : ((visits items).map Prod.fst).Nodup := by
  have hpairwise := Entry.pairwise_walk_sorted h true
  rw [← List.pairwise_map] at hpairwise
  refine hpairwise.imp fun {names others} hprec heq => ?_
  rw [heq] at hprec
  exact List.lt_irrefl _ hprec

/-- A folder is checked as its documents are one by one: the files in it, however deep, whose names end
like those of documents, each of them once and in the order of their paths. What is written about the
folder is what is written about each of them alone, and the folder passes if all of them pass. The first
that is no text ends the check. -/
theorem run_lint_folder {lookup : String → Option Entry} {dir : String}
    {items : List (String × Entry)} (hdir : Holds lookup dir items) {config : Option String}
    (hconfig : ∀ file ∈ config, file ≠ "") (deny : Bool) (stdin : ByteArray) :
    let answer := fun path => run (lintArguments config deny path) stdin lookup
    let alone := fun (d : List String × ByteArray) => answer (Entry.pathTo dir d.1)
    (∀ names content, (names, content) ∈ visits items ↔
        (Entry.folder items).LeadsTo names content ∧ Entry.EndsInDocument names) ∧
      ((visits items).map Prod.fst).Nodup ∧
      ((visits items).map Prod.fst).Pairwise Entry.Precedes ∧
      answer dir = filesResponse (houseOf lookup config deny) dir
        ((visits items).map fun d => (Entry.pathTo dir d.1, d.2)) ∧
      ((∀ d ∈ visits items, IsText d.2) →
        (answer dir).stdout = String.join ((visits items).map fun d => (alone d).stdout) ∧
          ((answer dir).code = 0 ↔ ∀ d ∈ visits items, (alone d).code = 0)) ∧
      ∀ before d behind, visits items = before ++ d :: behind →
        (∀ d ∈ before, IsText d.2) → ¬ IsText d.2 →
          (answer dir).stdout = String.join (before.map fun d => (alone d).stdout) ∧
            (answer dir).code = 1 := by
  intro answer alone
  let place := fun (d : List String × ByteArray) => (Entry.pathTo dir d.1, d.2)
  have hanswer : answer dir = filesResponse (houseOf lookup config deny) dir
      ((visits items).map place) :=
    run_lint_items hconfig hdir.ne_empty hdir.lookup_dir stdin
  -- the path of a document leads to the bytes that the walk found, so that alone it is checked as a file
  have halone : ∀ d ∈ visits items,
      alone d = filesResponse (houseOf lookup config deny) (place d).1 [place d] := by
    intro d hd
    have hfile := hdir.lookup_file d.1 d.2 (mem_visits.mp hd).1
    exact run_lint_file hconfig (pathTo_ne_empty hdir.ne_empty d.1) hfile stdin
  have hpairwise : ((visits items).map Prod.fst).Pairwise Entry.Precedes :=
    List.pairwise_map.mpr (Entry.pairwise_walk_sorted hdir.hasDistinctNames true)
  refine ⟨fun _ _ => mem_visits, nodup_visits hdir.hasDistinctNames, hpairwise, hanswer, ?_, ?_⟩
  · intro htexts
    obtain ⟨hstdout, hcode⟩ := filesResponse_texts (h := houseOf lookup config deny)
      (List.forall_mem_map.mpr htexts : ∀ f ∈ (visits items).map place, IsText f.2) dir
    rw [hanswer, hstdout, hcode, List.map_map, List.forall_mem_map]
    constructor
    · exact congrArg String.join
        (List.map_congr_left fun d hd => congrArg Response.stdout (halone d hd).symm)
    · exact forall₂_congr fun d hd => by rw [halone d hd]
  · intro before d behind hvisits htexts hd
    obtain ⟨hstdout, hcode⟩ := filesResponse_of_not_isText (h := houseOf lookup config deny)
      (List.forall_mem_map.mpr htexts : ∀ f ∈ before.map place, IsText f.2)
      (g := place d) hd (behind.map place) dir
    rw [hanswer, hvisits, List.map_append, List.map_cons, hstdout, List.map_map]
    refine ⟨congrArg String.join (List.map_congr_left fun b hb => ?_), hcode⟩
    have hmem : b ∈ visits items := hvisits ▸ List.mem_append_left _ hb
    exact congrArg Response.stdout (halone b hmem).symm

/-- A document in the inner folder comes before the one beside that folder, although its path is the
greater text. The picture is not looked at, and the check ends with the bytes that are no text. -/
theorem run_lint_folder_docs :
    let items : List (String × Entry) :=
      [("b.txt", .file ⟨#[0xff]⟩), ("a.md", .file "[[/damage 1d6]]".toUTF8),
        ("a", .folder [("x.md", .file "[[/check ability=str]]".toUTF8)]), ("p.png", .file ⟨#[0xff]⟩)]
    let root : Entry := .folder [("docs", .folder items)]
    let answer := fun path => run (lintArguments none true path) .empty root.resolve?
    Holds root.resolve? "docs" items ∧ ¬ IsText ⟨#[0xff]⟩ ∧ "docs/a.md" < "docs/a/x.md" ∧
      (answer "docs").stdout =
        (answer "docs/a/x.md").stdout ++ (answer "docs/a.md").stdout ∧
      (answer "docs").code = 1 := by
  intro items root answer
  have hdistinct : (Entry.folder items).HasDistinctNames := by
    refine .folder (by decide) ?_
    simp only [items, List.forall_mem_cons, List.not_mem_nil, false_imp_iff, implies_true, and_true]
    exact ⟨.file _, .file _, .folder (by decide) (by simp [Entry.HasDistinctNames.file]), .file _⟩
  have hnames : ∀ names content, (Entry.folder items).LeadsTo names content →
      ∀ name ∈ names, Entry.IsName name := by
    intro names content hleads
    cases hleads with
    | folder hi hleads =>
      simp only [items, List.mem_cons, List.not_mem_nil, or_false, Prod.mk.injEq] at hi
      obtain ⟨rfl, rfl⟩ | ⟨rfl, rfl⟩ | ⟨rfl, rfl⟩ | ⟨rfl, rfl⟩ := hi
      case inr.inr.inl =>
        cases hleads with
        | folder hi hleads =>
          obtain ⟨rfl, rfl⟩ := Prod.mk.inj (List.mem_singleton.mp hi)
          cases hleads
          decide
      all_goals
        cases hleads
        decide
  have hdocs : Holds root.resolve? "docs" items :=
    holds_resolve? rfl hdistinct hnames
  have hbroken : ¬ IsText ⟨#[0xff]⟩ := by decide
  have hvisits : visits items =
      [(["a", "x.md"], "[[/check ability=str]]".toUTF8), (["a.md"], "[[/damage 1d6]]".toUTF8)] ++
        (["b.txt"], ⟨#[0xff]⟩) :: [] := by
    -- these are decided apart, because the walk is evaluated by rewriting
    have hdocuments : isDocument "x.md" ∧ isDocument "a.md" ∧ isDocument "b.txt" ∧
        ¬ isDocument "p.png" := by
      decide
    simp [visits, items, Entry.sorted, sortedItems, Entry.walk, Entry.walkItems, List.mergeSort,
      hdocuments]
  have hnone : ∀ file ∈ (none : Option String), file ≠ "" := by simp
  obtain ⟨-, -, -, -, -, hends⟩ := run_lint_folder hdocs hnone true .empty
  obtain ⟨hstdout, hcode⟩ := hends _ _ _ hvisits (by decide) hbroken
  exact ⟨hdocs, hbroken, by decide, by simpa [Entry.pathTo, joinPath] using hstdout, hcode⟩

end RollMarkup.Shell
