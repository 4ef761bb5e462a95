import Mustache.Storage

/-!
# Recording reads

A recorder stands in front of a storage and writes down every read before it passes it on, failing
reads too.  Reads of the storage behind it are not written down.
-/

namespace Mustache

/-- one read -/
structure Call where
  name : Text
  encoding : Encoding
  deriving DecidableEq, Repr

structure Recorder (σ : Type) where
  inner : σ
  /-- the reads so far, in order -/
  calls : List Call

namespace Recorder

variable {σ : Type}

def ofStorage (s : σ) : Recorder σ := ⟨s, []⟩

def names (r : Recorder σ) : List Text := r.calls.map Call.name

def record (name : Text) (encoding : Encoding) (r : Recorder σ) : Recorder σ :=
  { r with calls := r.calls ++ [⟨name, encoding⟩] }

instance [Storage σ] : Storage (Recorder σ) where
  read r name encoding :=
    let r := r.record name encoding
    let (answer, inner) := Storage.read r.inner name encoding
    (answer, { r with inner := inner })

/-- a read past the recorder -/
def readInner [Storage σ] (r : Recorder σ) (name : Text) (encoding : Encoding) :
    Except ReadError Text × Recorder σ :=
  let (answer, inner) := Storage.read r.inner name encoding
  (answer, { r with inner := inner })

end Recorder
end Mustache
