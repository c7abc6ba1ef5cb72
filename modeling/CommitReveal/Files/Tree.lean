import CommitReveal.Bytes
import CommitReveal.Files.Fault

/-! A tree of files, and what the usual calls on paths answer. A path is walked name by name from the root
or from the working directory. -/
namespace CommitReveal.Files

/-- The path of the directory that a path leads through last. -/
def above (path : String) : String :=
  let names := (path.splitOn "/").reverse.dropWhile fun name => name = "" || name = "."
  String.intercalate "/" (names.drop 1).reverse

inductive Entry where
  | directory
  | file (content : Bytes)
deriving DecidableEq, Repr

/-- The names from the root to an entry. -/
abbrev Location := List String

structure Tree where
  entries : List (Location × Entry)
  workingDirectory : Location

namespace Tree

/-- Directories that are always there, and the empty file that takes everything. -/
def system : List (Location × Entry) :=
  [(["dev"], .directory), (["dev", "null"], .file []), (["etc"], .directory), (["tmp"], .directory)]

/-- A tree with one folder, and one file in it if a name and a content are given. -/
def withFolder (folder : String) (file : Option (String × Bytes)) (workingDirectory : Location) : Tree where
  entries :=
    ([folder], .directory) :: (file.toList.map fun f => ([folder, f.1], .file f.2)) ++ system
  workingDirectory := workingDirectory

def entry? (t : Tree) (l : Location) : Option Entry :=
  if l.isEmpty then some .directory else t.entries.lookup l

/-- The longest name that an entry may have, and the longest path, both in bytes. -/
def nameLimit : Nat := 255

def pathLimit : Nat := 4095

/-- Where a path starts, and its names. -/
def split (t : Tree) (path : String) : Location × List String :=
  match path.splitOn "/" with
  | "" :: names => ([], names)
  | names => (t.workingDirectory, names)

/-- Walks down a list of names; a name of no length and `.` stay, and `..` goes back. -/
def walk (t : Tree) : (here : Location) → (names : List String) → Except Fault (Location × Option Entry)
  | l, [] => .ok (l, t.entry? l)
  | l, name :: rest =>
    match t.entry? l with
    | none => .error .notFound
    | some (.file _) => .error .notDirectory
    | some .directory =>
      if nameLimit < name.utf8ByteSize then .error .nameTooLong
      else if name = "" ∨ name = "." then walk t l rest
      else if name = ".." then walk t l.dropLast rest
      else walk t (l ++ [name]) rest

/-- The location that a path names, and what is there. -/
def find (t : Tree) (path : String) : Except Fault (Location × Option Entry) :=
  if path.contains '\x00' then .error .nulInName
  else if pathLimit < path.utf8ByteSize then .error .nameTooLong
  else if path.isEmpty then .error .notFound
  else
    let (start, names) := t.split path
    t.walk start names

/-- The content of a file. -/
def read (t : Tree) (path : String) : Except Fault Bytes := do
  match ← t.find path with
  | (_, none) => .error .notFound
  | (_, some .directory) => .error .isDirectory
  | (_, some (.file content)) => return content

def add (t : Tree) (l : Location) (e : Entry) : Tree :=
  { t with entries := (l, e) :: t.entries.filter fun old => old.1 ≠ l }

/-- Walks down a list of names and makes the directories that are missing. -/
def makeFrom (t : Tree) : (here : Location) → (names : List String) → Except Fault Tree
  | _, [] => .ok t
  | l, name :: rest =>
    if nameLimit < name.utf8ByteSize then .error .nameTooLong
    else if name = "" ∨ name = "." then makeFrom t l rest
    else if name = ".." then makeFrom t l.dropLast rest
    else
      let next := l ++ [name]
      match t.entry? next with
      | some .directory => makeFrom t next rest
      | some (.file _) => .error (if rest.isEmpty then .exists else .notDirectory)
      | none => makeFrom (t.add next .directory) next rest

/-- Makes the directory that a path names, with all those above it. -/
def makeDirectories (t : Tree) (path : String) : Except Fault Tree :=
  if path.contains '\x00' then .error .nulInName
  else
    let (start, names) := t.split path
    t.makeFrom start names

/-- The content of a file to be written, with nothing in it if it is new. The directories above it are made;
nothing is given where no file can be. -/
def openFile (t : Tree) (path : String) : Except Fault (Option Bytes) := do
  let t ← t.makeDirectories (above path)
  match t.find path with
  | .error _ | .ok (_, some .directory) => return none
  | .ok (_, some (.file content)) => return some content
  | .ok (_, none) => return some []

end Tree

end CommitReveal.Files
