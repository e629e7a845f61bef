import TemplateMachine.Number.Binary64

/-! Documents of settings in TOML.  A document is a table, built line by line: a header opens a
table, and the lines behind it fill it.  A table keeps how it came about, since that decides what
may still be added to it. -/

namespace TemplateMachine

/-- How a table came about. -/
inductive TableForm where
  /-- Written as a value; nothing is added to it. -/
  | inline
  /-- Opened by a header of its own. -/
  | header
  /-- Passed by the header of a table in it. -/
  | implied
  /-- Made by a key with dots. -/
  | dotted
deriving DecidableEq, Inhabited

/-- A value. -/
inductive Toml where
  | string (value : String)
  | integer (value : Int)
  | float (value : Binary64)
  /-- A date, a time of day or both, as they are written. -/
  | dateTime (text : String)
  | boolean (value : Bool)
  | array (items : List Toml)
  | table (form : TableForm) (entries : List (String × Toml))
  /-- The tables of a header in double brackets, the last first. -/
  | tables (items : List Toml)
deriving Inhabited

namespace Toml

abbrev Entries := List (String × Toml)

/-- Sets the value of a key. -/
def setEntry (key : String) (value : Toml) : Entries → Entries
  | [] => [(key, value)]
  | (k, v) :: rest => if k = key then (key, value) :: rest else (k, v) :: setEntry key value rest

/-- A change of a table; none if the table does not allow it. -/
abbrev TableChange := TableForm → Entries → Option Entries

/-- Changes the table at the end of a path.  Tables on the way are made if they are missing, as
`made`; those that a header opened are closed to keys with dots. -/
def changeAt (made : TableForm) (change : TableChange) : List String → TableChange
  | [], form, entries => change form entries
  | key :: path, _, entries =>
    let within (form : TableForm) (inner : Entries) : Option Toml :=
      (changeAt made change path form inner).map (.table form)
    let changed : Option Toml :=
      match entries.lookup key with
      | none => within made []
      | some (.table .inline _) => none
      | some (.table .header inner) => if made = .dotted then none else within .header inner
      | some (.table form inner) => within form inner
      | some (.tables (.table form inner :: others)) =>
        (within form inner).map fun t => .tables (t :: others)
      | some _ => none
    changed.map fun t => setEntry key t entries

/-- Adds a new key to a table.  Whether the key had dots has to agree with how the table came
about. -/
def addKey (dots : Bool) (key : String) (value : Toml) : TableChange := fun form entries =>
  if (form == .dotted) != dots then none
  else if (entries.lookup key).isSome then none
  else some (entries ++ [(key, value)])

/-- Adds the value of a key, which may have dots, to a table. -/
def addValue (path : List String) (key : String) (value : Toml) : TableChange :=
  changeAt .dotted (addKey (!path.isEmpty) key value) path

/-- Opens a table by its header. -/
def openTable (key : String) : TableChange := fun _ entries =>
  match entries.lookup key with
  | none => some (entries ++ [(key, .table .header [])])
  | some (.table .implied inner) => some (setEntry key (.table .header inner) entries)
  | some _ => none

/-- Adds a table to those of a header in double brackets. -/
def openNext (key : String) : TableChange := fun _ entries =>
  match entries.lookup key with
  | none => some (entries ++ [(key, .tables [.table .header []])])
  | some (.tables items) => some (setEntry key (.tables (.table .header [] :: items)) entries)
  | some _ => none

/-- A document being built: its entries, and the path of the table that is open. -/
structure Draft where
  entries : Entries := []
  current : List String := []

/-- A line of a document. -/
inductive Line where
  | value (path : List String) (key : String) (value : Toml)
  | header (path : List String) (key : String)
  | nextHeader (path : List String) (key : String)

/-- The document with one more line. -/
def Draft.add? (d : Draft) (line : Line) : Option Draft :=
  match line with
  | .value path key value =>
    (changeAt .implied (addValue path key value) d.current .header d.entries).map fun entries =>
      { d with entries }
  | .header path key =>
    (changeAt .implied (openTable key) path .header d.entries).map fun entries =>
      ⟨entries, path ++ [key]⟩
  | .nextHeader path key =>
    (changeAt .implied (openNext key) path .header d.entries).map fun entries =>
      ⟨entries, path ++ [key]⟩

/-- The table that lines build up. -/
def ofLines? (lines : List Line) : Option Entries :=
  (lines.foldlM Draft.add? {}).map fun d => d.entries

end Toml

end TemplateMachine
