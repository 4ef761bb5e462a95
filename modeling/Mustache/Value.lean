import Mustache.Number

/-!
# Values

The data of a template: null, booleans, numbers, strings, lists, and maps from keys to values.  A
map is a list of entries; of several entries with one key the first is meant, and `Value.ofEntries`
makes a map in which every key occurs once.

* `Value.truthy`    what a block takes for true
* `Value.get?`      the entry of a map, or the element of a list, under a key
* `Value.getPath?`  several keys in a row
* `Value.text`      a value as text
* `Value.equal`     equality, in which the order of a map's entries does not count
-/

namespace Mustache

inductive Value where
  | null
  | bool (b : Bool)
  | number (n : Number)
  | string (s : Text)
  | list (items : List Value)
  | map (entries : List (Text × Value))
  deriving Repr

namespace Value

def emptyMap : Value := map []

/-- null, false, zeros, the empty string and the empty list are false; every map is true -/
def truthy : Value → Bool
  | null => false
  | bool b => b
  | number n => !n.isZero
  | string s => !s.isEmpty
  | list items => !items.isEmpty
  | map _ => true

/-- how many elements or entries there are -/
def size : Value → Nat
  | list items => items.length
  | map entries => entries.length
  | _ => 0

/-! ## keys -/

def get? : Value → Text → Option Value
  | map entries, key => entries.lookup key
  | list items, key => (Text.index? key).bind fun i => items[i]?
  | _, _ => none

def getPath? : Value → List Text → Option Value
  | v, [] => some v
  | v, key :: keys => (v.get? key).bind fun w => getPath? w keys

theorem getPath?_nil (v : Value) : v.getPath? [] = some v := by rw [getPath?]
theorem getPath?_cons (v : Value) (key : Text) (keys : List Text) :
    v.getPath? (key :: keys) = (v.get? key).bind fun w => w.getPath? keys := by rw [getPath?]

theorem getPath?_append (v : Value) (a b : List Text) :
    v.getPath? (a ++ b) = (v.getPath? a).bind fun w => w.getPath? b := by
  induction a generalizing v with
  | nil => rw [getPath?_nil]; rfl
  | cons key a ih =>
    rw [List.cons_append, getPath?_cons, getPath?_cons]
    cases v.get? key with
    | none => rfl
    | some w => exact ih w

/-! ## text -/

mutual

def text : Value → Text
  | null => []
  | bool b => if b then "true".toList else "false".toList
  | number n => n.text
  | string s => s
  | list items => [','].intercalate (texts items)
  | map _ => []

def texts : List Value → List Text
  | [] => []
  | v :: vs => v.text :: texts vs

end

/-! ## equality -/

mutual

def equal : Value → Value → Bool
  | null, null => true
  | bool a, bool b => a == b
  | number m, number n => m.numEq n
  | string s, string t => s == t
  | list vs, list ws => equalLists vs ws
  | map es, map fs => es.length == fs.length && equalEntries es fs
  | _, _ => false

def equalLists : List Value → List Value → Bool
  | [], [] => true
  | v :: vs, w :: ws => v.equal w && equalLists vs ws
  | _, _ => false

/-- every entry on the left has its equal under the same key on the right -/
def equalEntries : List (Text × Value) → List (Text × Value) → Bool
  | [], _ => true
  | (key, v) :: es, fs =>
    (match fs.lookup key with
      | some w => v.equal w
      | none => false) && equalEntries es fs

end

/-! ## maps with distinct keys -/

/-- an entry put into a list of entries: it takes the place of the entry with the same key -/
def insert (key : Text) (v : Value) : List (Text × Value) → List (Text × Value)
  | [] => [(key, v)]
  | e :: es => if e.1 = key then (key, v) :: es else e :: insert key v es

/-- the map of these entries; of several with one key the last counts -/
def ofEntries (entries : List (Text × Value)) : Value :=
  map (entries.foldl (fun es e => insert e.1 e.2 es) [])

end Value
end Mustache
