namespace IntervalIndex.Toml

/-- How a table came to be, which settles what may still be added to it. -/
inductive Origin where
  /-- It has a header of its own. -/
  | header
  /-- A header below it names it on the way. -/
  | implied
  /-- A dotted key names it on the way. -/
  | dotted
  /-- It stands in braces and is complete. -/
  | inline
deriving DecidableEq, Repr

inductive Value where
  | string (s : String)
  | integer (n : Int)
  | float
  | boolean (b : Bool)
  | dateTime
  | array (elements : List Value)
  /-- The tables of a repeated header. The last one may still grow. -/
  | tables (elements : List Value)
  | table (origin : Origin) (entries : List (String × Value))

abbrev Entries := List (String × Value)

namespace Entries

def replace (entries : Entries) (key : String) (v : Value) : Entries :=
  entries.map fun (k, w) => if k = key then (k, v) else (k, w)

/-- Changes the table that a path leads to. Tables that are missing on the way come into being; a
dotted path does not lead into a table that has a header. -/
def atPath (isDotted : Bool) (change : Origin → Entries → Option Entries) :
    List String → Origin → Entries → Option Entries
  | [], origin, entries => change origin entries
  | key :: path, _, entries =>
    match entries.lookup key with
    | none =>
      let origin := if isDotted then Origin.dotted else .implied
      (atPath isDotted change path origin []).map fun inner => entries ++ [(key, .table origin inner)]
    | some (.tables elements) =>
      match elements.getLast? with
      | some (.table origin last) =>
        (atPath isDotted change path origin last).map fun inner =>
          entries.replace key (.tables (elements.dropLast ++ [.table origin inner]))
      | _ => none
    | some (.table .inline _) => none
    | some (.table origin inner) =>
      if isDotted && origin = .header then none
      else (atPath isDotted change path origin inner).map fun inner =>
        entries.replace key (.table origin inner)
    | some _ => none

/-- Adds a value under a dotted key. The last table on its path must be one that dotted keys made. -/
def insert (entries : Entries) (path : List String) (key : String) (v : Value) : Option Entries :=
  entries.atPath true (fun origin inner =>
    if (origin = .dotted) = path.isEmpty then none
    else if (inner.lookup key).isSome then none
    else some (inner ++ [(key, v)])) path .header

/-- Opens the table of a header. Only a table that other headers implied may exist already. -/
def openTable (entries : Entries) (path : List String) (key : String) : Option Entries :=
  entries.atPath false (fun _ inner =>
    let others := inner.filter (·.1 != key)
    match inner.lookup key with
    | none => some (others ++ [(key, .table .header [])])
    | some (.table .implied kept) => some (others ++ [(key, .table .header kept)])
    | some _ => none) path .header

def openElement (entries : Entries) (path : List String) (key : String) : Option Entries :=
  entries.atPath false (fun _ inner =>
    match inner.lookup key with
    | none => some (inner ++ [(key, .tables [.table .header []])])
    | some (.tables elements) => some (inner.replace key (.tables (elements ++ [.table .header []])))
    | some _ => none) path .header

end Entries

end IntervalIndex.Toml
