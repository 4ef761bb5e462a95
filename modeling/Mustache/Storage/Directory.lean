import Mustache.Storage
import Mustache.Storage.FileTree

/-!
# Texts below a directory

Names are relative paths below a root.  A name that is absolute, or climbs with `..`, is refused.
A name without an extension may get a default one.

* `NamedRoot`          the root and the default extension
* `NamedRoot.resolve`  the path a name stands for
* `DirectoryStorage`   a file tree seen from a root
-/

namespace Mustache

structure NamedRoot where
  path : Text
  /-- written without the dots in front of it -/
  defaultExtension : Option Text
  deriving DecidableEq, Repr

inductive ResolveFault where
  | outsideRoot (name : Text)
  /-- the default extension was needed, and has a slash in it -/
  | badExtension (extension : Text)
  deriving DecidableEq, Repr

namespace NamedRoot

def ofPath (path : Text) : NamedRoot := ⟨path, none⟩

def withDefaultExtension (ext : Text) (r : NamedRoot) : NamedRoot :=
  { r with defaultExtension := some (ext.dropWhile (· = '.')) }

/-- components a name must not have -/
def isEscape : Path.Component → Bool
  | .root => true
  | .parent => true
  | _ => false

def resolve (r : NamedRoot) (name : Text) : Except ResolveFault Text :=
  if (Path.components name).any isEscape then .error (.outsideRoot name)
  else
    let path := Path.join r.path name
    match r.defaultExtension with
    | none => .ok path
    | some ext =>
      if (Path.extension? name).isSome then .ok path
      else if '/' ∈ ext then .error (.badExtension ext)
      else .ok (Path.withExtension ext path)

end NamedRoot

def ResolveFault.toReadError : ResolveFault → ReadError
  | outsideRoot name => .outsideRoot name
  | badExtension ext => .other ("extension cannot contain path separators: ".toList ++ ext)

def FileFault.toReadError (name : Text) : FileFault → ReadError
  | missing => .notFound name
  | isDirectory => .system .isDirectory
  | notDirectory => .system .notDirectory
  | tooLong => .system .nameTooLong
  | nul => .system .nulInName

structure DirectoryStorage where
  tree : FileTree
  root : NamedRoot

namespace DirectoryStorage

def bytes (d : DirectoryStorage) (name : Text) : Except ReadError ByteArray :=
  match d.root.resolve name with
  | .error f => .error f.toReadError
  | .ok path => (d.tree.read path).mapError (FileFault.toReadError name)

instance : Storage DirectoryStorage where
  read d name encoding :=
    match d.bytes name with
    | .error e => (.error e, d)
    | .ok b => (encoding.decode name b, d)

end DirectoryStorage
end Mustache
