import Mustache.Storage

/-!
# Texts in memory

A list of names and texts; of several entries with one name the first is meant.
-/

namespace Mustache

structure MemoryStorage where
  files : List (Text × Text)
  deriving DecidableEq, Repr

namespace MemoryStorage

def empty : MemoryStorage := ⟨[]⟩

/-- a text under a name, instead of the one that was there -/
def put (name text : Text) (m : MemoryStorage) : MemoryStorage :=
  ⟨(name, text) :: m.files.filter (·.1 ≠ name)⟩

def text? (m : MemoryStorage) (name : Text) : Option Text := m.files.lookup name

instance : Storage MemoryStorage where
  read m name _ :=
    match m.text? name with
    | some t => (.ok t, m)
    | none => (.error (.notFound name), m)

end MemoryStorage
end Mustache
