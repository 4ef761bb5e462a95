import Mustache.Text.Blank

/-!
# Names

A tag names the value it is about.  The name `.` is the *implicit* one: the value at hand.  Every
other name is *dotted*: a head and the keys that follow it, cut at each dot, so that a key may be
empty.

* `Name.ofText`    the name a tag's text stands for
* `Name.toText`    the text of a name
* `Name.segments`  head and keys in order, none for the implicit name
-/

namespace Mustache

inductive Name where
  | implicit
  | dotted (head : Text) (keys : List Text)
  deriving DecidableEq, Repr

namespace Name

def segments : Name → List Text
  | implicit => []
  | dotted head keys => head :: keys

def isImplicit : Name → Bool
  | implicit => true
  | dotted _ _ => false

def ofSegments : List Text → Name
  | [] => implicit
  | head :: keys => dotted head keys

def ofText (s : Text) : Name := if s = ['.'] then implicit else ofSegments (s.splitOn '.')

def toText : Name → Text
  | implicit => ['.']
  | dotted head keys => ['.'].intercalate (head :: keys)

theorem segments_ofSegments (l : List Text) : (ofSegments l).segments = l := by cases l <;> rfl
theorem ofSegments_segments (n : Name) : ofSegments n.segments = n := by cases n <;> rfl

theorem toText_ofText (s : Text) : (ofText s).toText = s := by
  rw [ofText]
  split
  · next h => rw [h]; rfl
  · cases h : s.splitOn '.' with
    | nil => exact absurd h (List.splitOnP_ne_nil _ _)
    | cons head keys =>
      show ['.'].intercalate (head :: keys) = s
      rw [← h, List.intercalate_splitOn]

theorem segments_eq_nil_iff (n : Name) : n.segments = [] ↔ n = implicit := by
  cases n <;> simp [segments]

end Name
end Mustache
