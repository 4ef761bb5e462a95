import Mustache.Storage
import Mustache.Text.Search

/-!
# Scripted answers

Each name has a list of responses.  A read takes the first one away, unless it is the last one
left, which is given again and again.  Names without responses get a default one, or are not
found.
-/

namespace Mustache

inductive Response where
  /-- a text, in which `@NAME@` stands for the name asked for -/
  | text (t : Text)
  | bytes (b : ByteArray)
  | failure (message : Text)
  | systemFailure (message : Text)
  | outsideRoot (path : Text)
  | missing

def Response.answer (name : Text) (encoding : Encoding) : Response → Except ReadError Text
  | text t => .ok (Text.replace "@NAME@".toList name t)
  | bytes b => encoding.decode name b
  | failure message => .error (.other message)
  | systemFailure message => .error (.system (.other message))
  | outsideRoot path => .error (.outsideRoot path)
  | missing => .error (.notFound name)

structure ScriptedStorage where
  responses : List (Text × List Response)
  default : Response

namespace ScriptedStorage

/-- the responses left for a name after one read -/
def advance (name : Text) (s : ScriptedStorage) : ScriptedStorage :=
  { s with responses := s.responses.map fun e =>
      match e.2 with
      | _ :: r :: rs => if e.1 = name then (e.1, r :: rs) else e
      | _ => e }

def response (s : ScriptedStorage) (name : Text) : Response :=
  match s.responses.lookup name with
  | some (r :: _) => r
  | _ => s.default

instance : Storage ScriptedStorage where
  read s name encoding := ((s.response name).answer name encoding, s.advance name)

end ScriptedStorage
end Mustache
