import TemplateMachine.Code.Bytes

/-! The files that commands read and write, and a tree of files in memory.  Paths are walked name by
name, and every name but the last has to be one of a directory. -/

namespace TemplateMachine

/-- Why a file cannot be read or written. -/
inductive FileError where
  | notFound
  | notDirectory
  | isDirectory
  | nameTooLong
  | denied
  | notText
  /-- Another reason, in words. -/
  | other (reason : String)
deriving DecidableEq, Inhabited

def FileError.message : FileError → String
  | .notFound => "No such file or directory (os error 2)"
  | .notDirectory => "Not a directory (os error 20)"
  | .isDirectory => "Is a directory (os error 21)"
  | .nameTooLong => "File name too long (os error 36)"
  | .denied => "Permission denied (os error 13)"
  | .notText => "stream did not contain valid UTF-8"
  | .other reason => reason

/-- Access to files by their paths. -/
structure Files (m : Type → Type) where
  read : String → m (Except FileError Bytes)
  write : String → Bytes → m (Except FileError Unit)

/-- The names on the way from the root of a tree. -/
abbrev Place := List String

/-- A tree of files, whose directories are those that hold something. -/
structure FileTree where
  files : List (Place × Bytes) := []
  /-- A file in which nothing is kept and nothing is found. -/
  void : Place := []
  /-- The directory in which paths start. -/
  start : Place := []
deriving DecidableEq, Inhabited

namespace FileTree

/-- What there is at a place. -/
inductive Entry where
  | file (bytes : Bytes)
  | void
  | directory
  | missing

def entry (t : FileTree) (place : Place) : Entry :=
  match t.files.lookup place with
  | some bytes => .file bytes
  | none =>
    if place = t.void && !place.isEmpty then .void
    else if (t.start :: t.void :: t.files.map Prod.fst).any fun known => place.isPrefixOf known then
      .directory
    else .missing

/-- The lengths, in bytes, that names and paths stay below. -/
def nameLimit : Nat := 256

def pathLimit : Nat := 4096

/-- The place that a name leads to from a directory.  Above the root is the root, and an empty name
stays where it is. -/
def step (t : FileTree) (place : Place) (name : String) : Except FileError Place :=
  match t.entry place with
  | .missing => .error .notFound
  | .file _ | .void => .error .notDirectory
  | .directory =>
    if name = "" || name = "." then .ok place
    else if name = ".." then .ok place.dropLast
    else if nameLimit ≤ name.utf8ByteSize then .error .nameTooLong
    else .ok (place ++ [name])

/-- The place that names lead to. -/
def follow (t : FileTree) (place : Place) (names : List String) : Except FileError Place :=
  names.foldlM t.step place

/-- Where a path starts, and its names. -/
def origin (t : FileTree) (path : String) : Except FileError (Place × List String) :=
  if pathLimit ≤ path.utf8ByteSize then .error .nameTooLong
  else .ok (if path.startsWith "/" then [] else t.start, path.splitOn "/")

def read (t : FileTree) (path : String) : Except FileError Bytes := do
  let (start, names) ← t.origin path
  match t.entry (← t.follow start names) with
  | .file bytes => .ok bytes
  | .void => .ok []
  | .directory => .error .isDirectory
  | .missing => .error .notFound

/-- The place at which a path names a file to write.  A path with a slash at its end names a
directory, also where there is none. -/
def target (t : FileTree) (path : String) : Except FileError Place := do
  let (start, names) ← t.origin path
  let given := names.filter fun name => !name.isEmpty
  match given.getLast? with
  | some name =>
    if names.getLast? = some "" && name != "." && name != ".." then
      let parent ← t.follow start given.dropLast
      let _ ← t.step parent "."
      .error .isDirectory
    else t.follow start names
  | none => .error .isDirectory

/-- The tree with a file written. -/
def write (t : FileTree) (path : String) (bytes : Bytes) : Except FileError FileTree := do
  let place ← t.target path
  match t.entry place with
  | .directory => .error .isDirectory
  | .void => .ok t
  | .file _ =>
    let files := t.files.map fun file => if file.1 = place then (place, bytes) else file
    .ok { t with files }
  | .missing => .ok { t with files := t.files ++ [(place, bytes)] }

/-- A tree in which paths start in a directory that holds files by their paths. -/
def ofFiles (files : List (String × Bytes)) : FileTree :=
  let start := ["tmp", "work"]
  ⟨files.map fun (path, bytes) => (start ++ path.splitOn "/", bytes), ["dev", "null"], start⟩

/-- Access to the files of a tree that is the state. -/
def access : Files (StateM FileTree) where
  read path := do return (← get).read path
  write path bytes := do
    match (← get).write path bytes with
    | .ok t =>
      set t
      return .ok ()
    | .error e => return .error e

end FileTree

end TemplateMachine
