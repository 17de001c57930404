/-!
# Files and folders
-/

namespace RollMarkup.Shell

/-- A file with its bytes, or a folder with the names and the contents of what is in it. -/
inductive Entry where
  | file (content : ByteArray)
  | folder (items : List (String × Entry))

namespace Entry

/-- The bytes of a file. -/
def content? : Entry → Option ByteArray
  | file content => some content
  | folder _ => none

/-- The text of a file in UTF-8. -/
def text? (e : Entry) : Option String :=
  e.content?.bind String.fromUTF8?

/-- Follows the names of a path from a folder, with the folders that it lies in. -/
def follow (current : Entry) (above : List Entry) : List String → Option Entry
  | [] => some current
  | name :: names =>
    match current with
    | file _ => none
    | folder items =>
      if name = "" ∨ name = "." then follow current above names
      else if name = ".." then
        match above with
        | [] => none
        | parent :: above => follow parent above names
      else (items.lookup name).bind fun next => follow next (current :: above) names

/-- What a relative path leads to from a folder. -/
def resolve? (root : Entry) (path : String) : Option Entry :=
  if path = "" ∨ path.toList.head? = some '/' then none
  else follow root [] ((path.toList.splitOn '/').map String.ofList)

/-- Puts a file at the end of a path of names, in folders that are made as needed. -/
def insertAt (content : ByteArray) (items : List (String × Entry)) :
    List String → List (String × Entry)
  | [] => items
  | [name] => items.filter (·.1 ≠ name) ++ [(name, file content)]
  | name :: names =>
    let inner :=
      match items.lookup name with
      | some (folder inner) => inner
      | _ => []
    items.filter (·.1 ≠ name) ++ [(name, folder (insertAt content inner names))]

/-- The folder with these files, each under its relative path. -/
def ofFiles (files : List (String × ByteArray)) : Entry :=
  folder (files.foldl (fun items f =>
    insertAt f.2 items ((f.1.toList.splitOn '/').map String.ofList)) [])

end Entry

/-- The path of an item in a folder. -/
def joinPath (folder name : String) : String :=
  if folder.toList.getLast? = some '/' then folder ++ name else folder ++ "/" ++ name

/-- The part of a file name behind its last dot. A dot in front of a name begins no extension. -/
def extension? (name : String) : Option String :=
  let reversed := name.toList.reverse
  match reversed.dropWhile (· ≠ '.') with
  | '.' :: _ :: _ => some (String.ofList (reversed.takeWhile (· ≠ '.')).reverse)
  | _ => none

/-- Whether a file in a folder is a document, by its extension. -/
def isDocument (name : String) : Bool :=
  (extension? name).any fun e => ["html", "md", "txt"].contains e

mutual

/-- The files of an entry with their paths: every file if `named`, and else the documents; in a
folder the documents alone. -/
def Entry.files (named : Bool) (path : String) : Entry → List (String × ByteArray)
  | .file content => if named then [(path, content)] else []
  | .folder items => itemFiles path items

/-- The documents among the items of a folder and in the folders among them, in the given order. -/
def itemFiles (path : String) : List (String × Entry) → List (String × ByteArray)
  | [] => []
  | (name, e) :: rest => e.files (isDocument name) (joinPath path name) ++ itemFiles path rest

end

/-- The files of an entry that are checked: a file itself, whatever its name, and the documents in a
folder. -/
def Entry.documents (path : String) (e : Entry) : List (String × ByteArray) :=
  e.files true path

mutual

/-- The entry with the items of every folder in the order of their names. -/
def Entry.sorted : Entry → Entry
  | .file content => .file content
  | .folder items => .folder ((sortedItems items).mergeSort fun a b => a.1 ≤ b.1)

/-- The items with what is in them sorted, in the order given. -/
def sortedItems : List (String × Entry) → List (String × Entry)
  | [] => []
  | (name, e) :: rest => (name, e.sorted) :: sortedItems rest

end

end RollMarkup.Shell
