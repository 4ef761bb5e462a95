import Mustache.Text.Blank

/-!
# Storages

A storage gives texts by name, the only way a template comes to other texts.  Reading may change
the storage, so that an answer may depend on the reads before it.

* `Encoding`   the encoding asked for, and decoding
* `ReadError`  why a read fails
* `Storage`    what a storage can do
-/

namespace Mustache

inductive Encoding where
  | utf8
  deriving DecidableEq, Repr

def Encoding.name : Encoding → Text
  | utf8 => "utf8".toList

/-- what the system reports -/
inductive SystemFault where
  | isDirectory
  | notDirectory
  | nameTooLong
  | nulInName
  | other (message : Text)
  deriving DecidableEq, Repr

def SystemFault.message : SystemFault → Text
  | isDirectory => "Is a directory (os error 21)".toList
  | notDirectory => "Not a directory (os error 20)".toList
  | nameTooLong => "File name too long (os error 36)".toList
  | nulInName => "file name contained an unexpected NUL byte".toList
  | other message => message

inductive ReadError where
  | notFound (name : Text)
  | outsideRoot (path : Text)
  | badEncoding (name : Text) (encoding : Encoding)
  | system (fault : SystemFault)
  | other (message : Text)
  deriving DecidableEq, Repr

def ReadError.message : ReadError → Text
  | notFound name => "Resource not found: ".toList ++ name
  | outsideRoot path => "Path outside allowed root: ".toList ++ path
  | badEncoding name encoding =>
    "Resource '".toList ++ name ++ "' is not valid ".toList ++ encoding.name
  | system fault => "I/O error: ".toList ++ fault.message
  | other message => message

/-- the text of the bytes read under a name -/
def Encoding.decode (encoding : Encoding) (name : Text) (bytes : ByteArray) :
    Except ReadError Text :=
  match encoding with
  | utf8 =>
    match String.fromUTF8? bytes with
    | some s => .ok s.toList
    | none => .error (.badEncoding name encoding)

class Storage (σ : Type) where
  /-- the answer to a read, and the storage after it -/
  read : σ → Text → Encoding → Except ReadError Text × σ

end Mustache
