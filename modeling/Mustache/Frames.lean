import Mustache.Name
import Mustache.Value

/-!
# Frames

While a template is rendered the values of the open blocks lie on a stack, above the data of the
template, which is never taken away.  A name is looked up by its head: the nearest frame that has
the head decides, and the other keys are followed inside the value found there, without a second
try further down.
-/

namespace Mustache

structure Frames where
  root : Value
  /-- the frames above the root, the top one first -/
  above : List Value
  deriving Repr

namespace Frames

def ofRoot (v : Value) : Frames := ⟨v, []⟩

def push (v : Value) (f : Frames) : Frames := { f with above := v :: f.above }

/-- the root stays -/
def pop (f : Frames) : Frames := { f with above := f.above.tail }

def depth (f : Frames) : Nat := f.above.length + 1

def top (f : Frames) : Value := f.above.headD f.root

/-- all frames, the top one first -/
def toList (f : Frames) : List Value := f.above ++ [f.root]

theorem toList_push (v : Value) (f : Frames) : (f.push v).toList = v :: f.toList := rfl

/-- the value under a key in the nearest frame that has it -/
def nearest? (f : Frames) (key : Text) : Option Value := f.toList.findSome? fun v => v.get? key

def lookup (f : Frames) : Name → Option Value
  | .implicit => some f.top
  | .dotted head keys => (f.nearest? head).bind fun v => v.getPath? keys

theorem nearest?_push (v : Value) (f : Frames) (key : Text) :
    (f.push v).nearest? key = (v.get? key).or (f.nearest? key) := by
  rw [nearest?, toList_push, List.findSome?_cons]
  cases v.get? key <;> rfl

end Frames
end Mustache
