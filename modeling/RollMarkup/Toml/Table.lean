/-!
# TOML tables

The values of a TOML document, and the rules by which headers and keys build up its tables: no
table is opened by two headers, no key is given twice, and dotted keys do not reach into a table
that a header in single brackets opened.
-/

namespace RollMarkup.Toml

/-- How a table came to be. -/
inductive Origin where
  /-- Written between braces: complete. -/
  | inline
  /-- Opened by a header. -/
  | header
  /-- Only named on the way to another table by a header. -/
  | implied
  /-- Named by a dotted key. -/
  | dotted
  deriving DecidableEq, Repr

/-- A value of a TOML document. -/
inductive Value where
  | string (s : String)
  | boolean (b : Bool)
  /-- A number, a date or a time: which one is not kept. -/
  | other
  | list (items : List Value)
  | table (origin : Origin) (members : List (String × Value))
  /-- The tables opened by one header in double brackets. -/
  | tables (items : List (List (String × Value)))
  deriving Inhabited

/-- The members of a table, in the order in which they were first named. -/
abbrev Members := List (String × Value)

namespace Members

/-- The members with the value of a key replaced, or with a new member at the end. -/
def set (ms : Members) (key : String) (v : Value) : Members :=
  match ms with
  | [] => [(key, v)]
  | m :: rest => if m.1 = key then (key, v) :: rest else m :: set rest key v

/-- Puts a value under a dotted key. Tables on the way are opened as needed. The last of them has to
be one that a dotted key named; the others may also be such as headers only named, or the last of
the tables of a header in double brackets. -/
def put? (keys : List String) (v : Value) (ms : Members) : Option Members :=
  match keys with
  | [] => none
  | [k] => if (ms.lookup k).isSome then none else some (ms.set k v)
  | k :: next :: rest =>
    match ms.lookup k with
    | none => (put? (next :: rest) v []).map fun inner => ms.set k (.table .dotted inner)
    | some (.table .dotted inner) =>
      (put? (next :: rest) v inner).map fun inner => ms.set k (.table .dotted inner)
    | some (.table .implied inner) =>
      if rest = [] then none
      else (put? (next :: rest) v inner).map fun inner => ms.set k (.table .implied inner)
    | some (.tables items) =>
      if rest = [] then none
      else
        items.getLast?.bind fun last =>
          (put? (next :: rest) v last).map fun last => ms.set k (.tables (items.dropLast ++ [last]))
    | _ => none

/-- Changes the table at the end of a path of headers. Tables on the way are opened as needed; of
the tables of a header in double brackets the last one is meant. -/
def alter? (path : List String) (f : Members → Option Members) (ms : Members) : Option Members :=
  match path with
  | [] => f ms
  | k :: rest =>
    match ms.lookup k with
    | none => (alter? rest f []).map fun inner => ms.set k (.table .implied inner)
    | some (.table .inline _) => none
    | some (.table origin inner) =>
      (alter? rest f inner).map fun inner => ms.set k (.table origin inner)
    | some (.tables items) =>
      items.getLast?.bind fun last =>
        (alter? rest f last).map fun last => ms.set k (.tables (items.dropLast ++ [last]))
    | some _ => none

/-- Opens the table of a header in single brackets. -/
def openTable? (path : List String) (ms : Members) : Option Members :=
  path.getLast?.bind fun k =>
    ms.alter? path.dropLast fun parent =>
      match parent.lookup k with
      | none => some (parent.set k (.table .header []))
      | some (.table .implied inner) => some (parent.set k (.table .header inner))
      | some _ => none

/-- Opens one more table of a header in double brackets. -/
def openItem? (path : List String) (ms : Members) : Option Members :=
  path.getLast?.bind fun k =>
    ms.alter? path.dropLast fun parent =>
      match parent.lookup k with
      | none => some (parent.set k (.tables [[]]))
      | some (.tables items) => some (parent.set k (.tables (items ++ [[]])))
      | some _ => none

end Members

end RollMarkup.Toml
