import Mustache.Path

/-!
# File trees

Files and directories by location, which is the list of names from the root.  Reading a path
follows its pieces one by one; each piece, an empty one too, asks for a directory to start from.
Names and paths are limited in bytes.  The limit of a name is tested where the name is looked up,
that of a path before anything else but the character NUL, which no path holds.
-/

namespace Mustache

structure FileTree where
  files : List (List Text × ByteArray)
  /-- directories beside those that hold a file -/
  directories : List (List Text)

inductive FileFault where
  | missing
  | isDirectory
  | notDirectory
  /-- of a name or of a whole path -/
  | tooLong
  | nul
  deriving DecidableEq, Repr

inductive FileEntry where
  | file (bytes : ByteArray)
  | directory

namespace FileTree

def empty : FileTree := ⟨[], []⟩

/-- the location a path leads to from the root when every name on the way is a directory -/
def location (p : Text) : List Text :=
  (Path.components p).foldl (fun here c =>
    match c with
    | .root => []
    | .current => here
    | .parent => here.dropLast
    | .normal name => here ++ [name]) []

def addFile (p : Text) (bytes : ByteArray) (t : FileTree) : FileTree :=
  { t with files := (location p, bytes) :: t.files.filter (·.1 ≠ location p) }

def addDirectory (p : Text) (t : FileTree) : FileTree :=
  { t with directories := location p :: t.directories }

def entry? (t : FileTree) (l : List Text) : Option FileEntry :=
  match t.files.lookup l with
  | some bytes => some (.file bytes)
  | none =>
    if l = [] ∨ t.directories.any l.isPrefixOf ∨ t.files.any (fun f => l.isPrefixOf f.1) then
      some .directory
    else none

/-- how many bytes a name may have -/
def maxNameSize : Nat := 255

/-- how many bytes a path may have -/
def maxPathSize : Nat := 4095

/-- the location reached over these pieces -/
def walk (t : FileTree) (l : List Text) : List Text → Except FileFault (List Text)
  | [] => .ok l
  | piece :: rest =>
    match t.entry? l with
    | none => .error .missing
    | some (.file _) => .error .notDirectory
    | some .directory =>
      if Path.isIdle piece then t.walk l rest
      else if piece = ['.', '.'] then t.walk l.dropLast rest
      else if maxNameSize < Path.size piece then .error .tooLong
      else t.walk (l ++ [piece]) rest

/-- the bytes of the file a path leads to -/
def read (t : FileTree) (p : Text) : Except FileFault ByteArray :=
  if '\x00' ∈ p then .error .nul
  else if maxPathSize < Path.size p then .error .tooLong
  else
    match t.walk [] (Path.pieces p) with
    | .error f => .error f
    | .ok l =>
      match t.entry? l with
      | none => .error .missing
      | some .directory => .error .isDirectory
      | some (.file bytes) => .ok bytes

end FileTree
end Mustache
