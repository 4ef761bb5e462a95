import Mustache.Frames
import Mustache.Node
import Mustache.Text.Entity
import Mustache.Text.Lines

/-!
# Rendering

A rendering step works on a *canvas*: the frames, and the pieces of text written so far.  It may
fail with the name of an inclusion that is nested too deep; the canvas it leaves then counts too.

* `Rendering`      steps and the ways to put them together
* `Node.render`    one node, given what an inclusion does
* `inclusion`      what an inclusion does while a number of further levels is allowed
* `render`         a tree on a fresh canvas
-/

namespace Mustache

structure Canvas where
  frames : Frames
  /-- what was written, the latest first -/
  pieces : List Text
  deriving Repr

namespace Canvas

def ofData (data : Value) : Canvas := ⟨.ofRoot data, []⟩

def text (c : Canvas) : Text := c.pieces.reverse.flatten

def write (t : Text) (c : Canvas) : Canvas := { c with pieces := t :: c.pieces }

theorem text_write (t : Text) (c : Canvas) : (c.write t).text = c.text ++ t := by
  simp [text, write]

end Canvas

/-- the canvas after a step, and the name of the inclusion it failed at, if it did -/
abbrev Rendering := Canvas → Canvas × Option Text

namespace Rendering

def done : Rendering := fun c => (c, none)

def fail (name : Text) : Rendering := fun c => (c, some name)

def write (t : Text) : Rendering := fun c => (c.write t, none)

/-- a second step, unless the first one fails -/
def andThen (a b : Rendering) : Rendering := fun c =>
  match a c with
  | (c', none) => b c'
  | (c', some name) => (c', some name)

/-- a step with one more frame, taken away again whether or not the step fails -/
def within (v : Value) (body : Rendering) : Rendering := fun c =>
  let (c', e) := body { c with frames := c.frames.push v }
  ({ c' with frames := c'.frames.pop }, e)

/-- a step within each of the values in turn -/
def each (body : Rendering) : List Value → Rendering
  | [] => done
  | v :: vs => (within v body).andThen (each body vs)

/-- a step on a canvas of its own, whose text is then written with its lines indented -/
def indented (indent : Text) (body : Rendering) : Rendering := fun c =>
  match body { c with pieces := [] } with
  | (c', none) => ({ c' with pieces := Text.indentLines c'.text indent :: c.pieces }, none)
  | (c', some name) => ({ c' with pieces := c.pieces }, some name)

/-- the text of a name's value; a name without a value writes nothing -/
def var (name : Name) (escaped : Bool) : Rendering := fun c =>
  match c.frames.lookup name with
  | none => done c
  | some v => write (if escaped then Text.escape v.text else v.text) c

/-- once for each element of a list, once for any other true value -/
def block (name : Name) (body : Rendering) : Rendering := fun c =>
  match c.frames.lookup name with
  | some (.list vs) => each body vs c
  | some v => if v.truthy then within v body c else done c
  | none => done c

/-- once, in the frames as they are, when there is no true value -/
def invertedBlock (name : Name) (body : Rendering) : Rendering := fun c =>
  if (c.frames.lookup name).any Value.truthy then done c else body c

theorem done_andThen (a : Rendering) : done.andThen a = a := rfl

theorem andThen_done (a : Rendering) : a.andThen done = a := by
  funext c
  simp only [andThen]
  rcases a c with ⟨c', _ | name⟩ <;> rfl

theorem andThen_of_ok {a : Rendering} {c c' : Canvas} (h : a c = (c', none)) (b : Rendering) :
    a.andThen b c = b c' := by
  rw [andThen, h]

theorem andThen_of_fail {a : Rendering} {c c' : Canvas} {name : Text}
    (h : a c = (c', some name)) (b : Rendering) : a.andThen b c = (c', some name) := by
  rw [andThen, h]

theorem indented_of_ok {a : Rendering} {c c' : Canvas}
    (h : a { c with pieces := [] } = (c', none)) (indent : Text) : indented indent a c =
      ({ c' with pieces := Text.indentLines c'.text indent :: c.pieces }, none) := by
  rw [indented, h]

theorem indented_of_fail {a : Rendering} {c c' : Canvas} {name : Text}
    (h : a { c with pieces := [] } = (c', some name)) (indent : Text) :
    indented indent a c = ({ c' with pieces := c.pieces }, some name) := by
  rw [indented, h]

theorem andThen_assoc (a b d : Rendering) :
    (a.andThen b).andThen d = a.andThen (b.andThen d) := by
  funext c
  simp only [andThen]
  rcases a c with ⟨c', _ | name⟩ <;> rfl

/-! ### blocks, by the value that their name has -/

section
variable {name : Name} {body : Rendering} {c : Canvas}

theorem block_of_list {vs : List Value} (h : c.frames.lookup name = some (.list vs)) :
    block name body c = each body vs c := by
  rw [block, h]

theorem block_of_truthy {v : Value} (h : c.frames.lookup name = some v)
    (hlist : ∀ vs, v ≠ .list vs) (htrue : v.truthy = true) :
    block name body c = within v body c := by
  rw [block, h]
  cases v with
  | list vs => exact absurd rfl (hlist vs)
  | _ => exact if_pos htrue

/-- for a false value a block does nothing; an empty list has no element to do it for -/
theorem block_of_falsy (h : ∀ v, c.frames.lookup name = some v → v.truthy = false) :
    block name body c = done c := by
  rw [block]
  cases hv : c.frames.lookup name with
  | none => rfl
  | some v =>
    have hfalse := h v hv
    cases v with
    | list vs =>
      obtain rfl : vs = [] := by simpa [Value.truthy] using hfalse
      rfl
    | _ => exact if_neg (Bool.eq_false_iff.1 hfalse)

theorem invertedBlock_of_truthy {v : Value} (h : c.frames.lookup name = some v)
    (htrue : v.truthy = true) : invertedBlock name body c = done c := by
  rw [invertedBlock, h]
  exact if_pos htrue

theorem invertedBlock_of_falsy (h : ∀ v, c.frames.lookup name = some v → v.truthy = false) :
    invertedBlock name body c = body c := by
  rw [invertedBlock]
  cases hv : c.frames.lookup name with
  | none => rfl
  | some v => exact if_neg (Bool.eq_false_iff.1 (h v hv))

end

end Rendering

/-! ## nodes -/

mutual

/-- the step for one node; `incl` says what an inclusion does -/
def Node.render (incl : Text → Option Text → Rendering) : Node → Rendering
  | .text t => .write t
  | .var name escaped => .var name escaped
  | .block name inverted children =>
    if inverted then .invertedBlock name (Tree.render incl children)
    else .block name (Tree.render incl children)
  | .inclusion name indent => incl name indent

def Tree.render (incl : Text → Option Text → Rendering) : Tree → Rendering
  | [] => .done
  | n :: ns => (n.render incl).andThen (Tree.render incl ns)

end

theorem Tree.render_nil (incl : Text → Option Text → Rendering) :
    Tree.render incl [] = .done := by rw [Tree.render]

theorem Tree.render_cons (incl : Text → Option Text → Rendering) (n : Node) (ns : Tree) :
    Tree.render incl (n :: ns) = (n.render incl).andThen (Tree.render incl ns) := by
  rw [Tree.render]

theorem Tree.render_append (incl : Text → Option Text → Rendering) (a b : Tree) :
    Tree.render incl (a ++ b) = (Tree.render incl a).andThen (Tree.render incl b) := by
  induction a with
  | nil => rw [render_nil]; rfl
  | cons n a ih => rw [List.cons_append, render_cons, ih, render_cons, Rendering.andThen_assoc]

/-! ## inclusions -/

/-- the templates that may be included, by name -/
abbrev Partials := Text → Option Tree

/-- An inclusion with so many further levels allowed.  A name without a template renders nothing,
at any depth. -/
def inclusion (partials : Partials) : Nat → Text → Option Text → Rendering
  | 0, name, _ =>
    match partials name with
    | none => .done
    | some _ => .fail name
  | levels + 1, name, indent =>
    match partials name with
    | none => .done
    | some t =>
      match indent with
      | none => Tree.render (inclusion partials levels) t
      | some i => .indented i (Tree.render (inclusion partials levels) t)

theorem inclusion_of_eq_none {partials : Partials} {name : Text} (h : partials name = none)
    (levels : Nat) (indent : Option Text) : inclusion partials levels name indent = .done := by
  cases levels <;> simp only [inclusion, h]

theorem inclusion_zero_of_eq_some {partials : Partials} {name : Text} {t : Tree}
    (h : partials name = some t) (indent : Option Text) :
    inclusion partials 0 name indent = .fail name := by
  simp only [inclusion, h]

theorem inclusion_succ_of_eq_some {partials : Partials} {name : Text} {t : Tree}
    (h : partials name = some t) (levels : Nat) :
    inclusion partials (levels + 1) name none = Tree.render (inclusion partials levels) t := by
  simp only [inclusion, h]

theorem inclusion_succ_some_of_eq_some {partials : Partials} {name : Text} {t : Tree}
    (h : partials name = some t) (levels : Nat) (i : Text) :
    inclusion partials (levels + 1) name (some i) =
      .indented i (Tree.render (inclusion partials levels) t) := by
  simp only [inclusion, h]

/-- inclusions nested deeper than allowed, at the template of this name -/
structure RecursionError where
  name : Text
  maxDepth : Nat
  deriving DecidableEq, Repr

def RecursionError.message (e : RecursionError) : Text :=
  "Recursive partial inclusion detected (depth > ".toList ++ Text.ofNat e.maxDepth ++
    "): ".toList ++ e.name

/-- the text of a tree, for `data`, with inclusions nested at most `maxDepth` deep -/
def render (partials : Partials) (maxDepth : Nat) (t : Tree) (data : Value) :
    Except RecursionError Text :=
  match Tree.render (inclusion partials maxDepth) t (.ofData data) with
  | (c, none) => .ok c.text
  | (_, some name) => .error ⟨name, maxDepth⟩

theorem render_eq_ok_iff {partials : Partials} {maxDepth : Nat} {t : Tree} {data : Value}
    {out : Text} : render partials maxDepth t data = .ok out ↔
      ∃ c, Tree.render (inclusion partials maxDepth) t (.ofData data) = (c, none) ∧
        c.text = out := by
  rw [render]
  rcases Tree.render (inclusion partials maxDepth) t (.ofData data) with ⟨c, _ | name⟩
  · simp
  · simp

end Mustache
