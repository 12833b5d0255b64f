/-!
# TOML tables

A TOML document is a table of values and tables. A table can be made in three ways, which differ in
what may be added later: by a header of its own, as a step on the way to another header, or by a
dotted key. Each rule says when two statements about one table go together.
-/

namespace KernelFusion

/-- How a table came to be. -/
inductive TableOrigin where
  /-- By a header, or as the root of the document. -/
  | header
  /-- On the way to another header. -/
  | path
  /-- By a dotted key. -/
  | dotted
deriving DecidableEq

/-- A value or table of a document. -/
inductive Toml where
  /-- A text. -/
  | string (value : String)
  /-- An integer. -/
  | integer (value : Int)
  /-- A truth value. -/
  | boolean (value : Bool)
  /-- A floating-point number. -/
  | float
  /-- A date, a time or both. -/
  | moment
  /-- A list of values. -/
  | array (items : List Toml)
  /-- A table written as a value; a dotted key in it makes another one. -/
  | inline (dotted : Bool) (entries : List (String × Toml))
  /-- A table of the document. -/
  | table (origin : TableOrigin) (entries : List (String × Toml))
  /-- An array of tables, each made by a header. -/
  | tables (elements : List (List (String × Toml)))
deriving Inhabited

namespace Toml

/-- The entries of a table in order. -/
abbrev Entries := List (String × Toml)

/-- The value under a key. -/
def find? (key : String) (entries : Entries) : Option Toml :=
  (entries.find? (fun e => e.1 == key)).map (·.2)

/-- Replace the value under a key where it stands. -/
def replace (key : String) (value : Toml) (entries : Entries) : Entries :=
  entries.map (fun e => if e.1 = key then (key, value) else e)

/-- Add a key and value at the end of a table, given whether the table was made by a dotted key and
whether the key has more than one part. A table that was not made by dotted keys takes only single
keys, one that was only the last parts of dotted ones. -/
def addEntry? (tableDotted keyDotted : Bool) (key : String) (value : Toml) (entries : Entries) :
    Option Entries :=
  if tableDotted = keyDotted ∧ (find? key entries).isNone then some (entries ++ [(key, value)])
  else none

/-- Change the table at the end of a path, making the tables that are missing. On a path of a dotted
key, tables with a header of their own cannot be entered. In an array of tables the path goes into
the last one. -/
def changeAt? (dotted : Bool) (change : TableOrigin → Entries → Option Entries) :
    List String → TableOrigin → Entries → Option Entries
  | [], origin, entries => change origin entries
  | key :: rest, _, entries =>
    match find? key entries with
    | none =>
      let origin : TableOrigin := if dotted then .dotted else .path
      (changeAt? dotted change rest origin []).map (fun sub =>
        entries ++ [(key, .table origin sub)])
    | some (.table origin sub) =>
      if dotted ∧ origin = .header then none
      else (changeAt? dotted change rest origin sub).map (fun sub =>
        replace key (.table origin sub) entries)
    | some (.tables elements) =>
      match elements.getLast? with
      | none => none
      | some last =>
        (changeAt? dotted change rest .header last).map (fun sub =>
          replace key (.tables (elements.dropLast ++ [sub])) entries)
    | some _ => none

/-- Add a value under a key of one or more parts to the table with a header. -/
def addValue? (header key : List String) (value : Toml) (root : Entries) : Option Entries :=
  match key.getLast? with
  | none => none
  | some last =>
    let path := key.dropLast
    changeAt? false (fun origin entries =>
      changeAt? true (fun origin entries =>
        addEntry? (origin = .dotted) (!path.isEmpty) last value entries) path origin entries)
      header .header root

/-- Open the table with a header. A table that was passed on the way to another header may still get
its own, and moves to the end; all others must be new. -/
def openTable? (header : List String) (root : Entries) : Option Entries :=
  match header.getLast? with
  | none => none
  | some last =>
    changeAt? false (fun _ entries =>
      match find? last entries with
      | none => some (entries ++ [(last, .table .header [])])
      | some (.table .path sub) =>
        some (entries.filter (fun e => e.1 ≠ last) ++ [(last, .table .header sub)])
      | some _ => none) header.dropLast .header root

/-- Open another table of the array of tables with a header. -/
def openElement? (header : List String) (root : Entries) : Option Entries :=
  match header.getLast? with
  | none => none
  | some last =>
    changeAt? false (fun _ entries =>
      match find? last entries with
      | none => some (entries ++ [(last, .tables [[]])])
      | some (.tables elements) => some (replace last (.tables (elements ++ [[]])) entries)
      | some _ => none) header.dropLast .header root

/-- Add a value under a key of one or more parts to an inline table. -/
def addInline? (value : Toml) :
    (tableDotted keyDotted : Bool) → List String → Entries → Option Entries
  | _, _, [], _ => none
  | tableDotted, keyDotted, [last], entries => addEntry? tableDotted keyDotted last value entries
  | _, _, key :: rest, entries =>
    match find? key entries with
    | none =>
      (addInline? value true true rest []).map (fun sub => entries ++ [(key, .inline true sub)])
    | some (.inline true sub) =>
      (addInline? value true true rest sub).map (fun sub => replace key (.inline true sub) entries)
    | some _ => none

end Toml

end KernelFusion
