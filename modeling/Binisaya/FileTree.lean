import Binisaya.Compile

/-!
# Files by name

A tree of files below a working directory, and the file that a path in it names.
-/

namespace Binisaya

/-- Files and directories below a working directory, each by the names on the way to it. -/
structure FileTree where
  files : List (List String × List UInt8)
  directories : List (List String)
  deriving DecidableEq, Repr

/-- Where a path leads. -/
inductive FileTree.Spot where
  | file (content : List UInt8)
  | directory (path : List String)
  /-- A directory above the working directory, of which nothing else is known. -/
  | above
  deriving DecidableEq, Repr

namespace FileTree

/-- The names in a path. -/
def components (path : String) : List String := path.splitOn "/"

/-- The names on the way to a file or directory that is to be created. -/
def location (path : String) : List String :=
  (components path).filter fun c => c != "" && c != "."

/-- Whether a path is a directory: it is listed, or on the way to something. -/
def isDirectory (t : FileTree) (path : List String) : Bool :=
  path.isEmpty || t.directories.any (fun d => path.isPrefixOf d) ||
    t.files.any fun f => path.isPrefixOf f.1

/-- What is found below a directory under a name. -/
def child? (t : FileTree) (path : List String) (name : String) : Option Spot :=
  match t.files.lookup (path ++ [name]) with
  | some content => some (.file content)
  | none => if t.isDirectory (path ++ [name]) then some (.directory (path ++ [name])) else none

/-- Follows one name from a spot.  Nothing is below a file. -/
def step (t : FileTree) (spot : Spot) (name : String) : Except OpenFailure Spot :=
  match spot with
  | .file _ => .error .notDirectory
  | .above => if name = "" ∨ name = "." ∨ name = ".." then .ok .above else .error .missing
  | .directory path =>
    if name = "" ∨ name = "." then .ok (.directory path)
    else if name = ".." then
      if path.isEmpty then .ok .above else .ok (.directory path.dropLast)
    else
      match t.child? path name with
      | some s => .ok s
      | none => .error .missing

/-- Where a path leads.  A path that begins with a slash begins above the working directory, and
the empty path leads nowhere. -/
def find (t : FileTree) (path : String) : Except OpenFailure Spot :=
  match components path with
  | [""] => .error .missing
  | "" :: names => names.foldlM t.step .above
  | names => names.foldlM t.step (.directory [])

/-- The reader of the file that a path names.  A directory can be opened, but not read. -/
def open? (t : FileTree) (path : String) : Except OpenFailure Reader :=
  match t.find path with
  | .error why => .error why
  | .ok (.file content) => .ok ⟨[content], none⟩
  | .ok _ => .ok ⟨[], some ("read " ++ path ++ ": is a directory")⟩

end FileTree

end Binisaya
