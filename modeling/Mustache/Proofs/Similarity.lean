import Mathlib.Data.List.Forall2
import Mustache.Proofs.Simulation

/-!
# Similar data

A rendering looks at its data in three ways: it looks up names in the frames, it asks what a block
does with a value, and it writes a value as text.  A relation between values that these three keep
relates two renderings of one tree, on data that differ, from beginning to end: their frames differ,
but they write the same text and fail at the same name.

* `Value.items?`         the elements of a list
* `Similarity`           what a relation between values has to keep
* `Frames.Similar`       frames with related values, one by one; `Frames.Finds` a name found in such
                         frames alike
* `Rendering.Alike`      two steps that do the same on canvases with similar frames
* `render_similar`       a tree is rendered alike on related data
-/

namespace Mustache

variable {R : Value → Value → Prop}

/-! ## values -/

/-- the elements of a list; other values have none -/
def Value.items? : Value → Option (List Value)
  | .list vs => some vs
  | _ => none

/-- related values have the same text and are true or false alike, and only lists are related to
lists, element by element -/
structure Similarity (R : Value → Value → Prop) : Prop where
  text {v w : Value} : R v w → v.text = w.text
  truthy {v w : Value} : R v w → v.truthy = w.truthy
  items {v w : Value} : R v w → Option.Rel (List.Forall₂ R) v.items? w.items?

/-- related results are both missing, or both are there and their values are related -/
theorem rel_cases {α : Type} {P : α → α → Prop} {x y : Option α} (h : Option.Rel P x y) :
    (x = none ∧ y = none) ∨ ∃ v w, x = some v ∧ y = some w ∧ P v w := by
  cases h with
  | none => exact .inl ⟨rfl, rfl⟩
  | some hvw => exact .inr ⟨_, _, rfl, rfl, hvw⟩

/-- what a block does, told by the elements of the value -/
theorem Rendering.block_eq (name : Name) (body : Rendering) (c : Canvas) :
    Rendering.block name body c =
      match c.frames.lookup name with
      | none => done c
      | some v =>
        match v.items? with
        | some vs => each body vs c
        | none => if v.truthy then within v body c else done c := by
  rw [Rendering.block]
  rcases c.frames.lookup name with - | (- | - | - | - | - | -) <;> rfl

/-! ## frames -/

namespace Frames

/-- as many frames, and related values in them -/
structure Similar (R : Value → Value → Prop) (f g : Frames) : Prop where
  root : R f.root g.root
  above : List.Forall₂ R f.above g.above

/-- the name is found in similar frames alike -/
def Finds (R : Value → Value → Prop) (name : Name) : Prop :=
  ∀ f g : Frames, f.Similar R g → Option.Rel R (f.lookup name) (g.lookup name)

variable {f g : Frames}

theorem Similar.push (h : f.Similar R g) {v w : Value} (hvw : R v w) :
    (f.push v).Similar R (g.push w) := ⟨h.root, .cons hvw h.above⟩

theorem Similar.pop (h : f.Similar R g) : f.pop.Similar R g.pop := by
  obtain ⟨root, above⟩ := f
  obtain ⟨root', above'⟩ := g
  refine ⟨h.root, ?_⟩
  show List.Forall₂ R above.tail above'.tail
  cases h.above with
  | nil => exact .nil
  | cons _ htail => exact htail

theorem Similar.toList (h : f.Similar R g) : List.Forall₂ R f.toList g.toList :=
  List.rel_append h.above (.cons h.root .nil)

theorem Similar.top (h : f.Similar R g) : R f.top g.top := by
  obtain ⟨root, above⟩ := f
  obtain ⟨root', above'⟩ := g
  show R (above.headD root) (above'.headD root')
  cases h.above with
  | nil => exact h.root
  | cons hhead _ => exact hhead

/-- what is found under a key in related values is found in the nearest frame -/
theorem Similar.nearest? {P : Value → Value → Prop} {key : Text} (h : f.Similar R g)
    (hkey : ∀ v w, R v w → Option.Rel P (v.get? key) (w.get? key)) :
    Option.Rel P (f.nearest? key) (g.nearest? key) := by
  have hall := h.toList
  rw [Frames.nearest?, Frames.nearest?]
  generalize f.toList = vs at hall
  generalize g.toList = ws at hall
  induction hall with
  | nil => exact .none
  | @cons v w _ _ hvw _ ih =>
    rw [List.findSome?_cons, List.findSome?_cons]
    rcases rel_cases (hkey v w hvw) with ⟨hv, hw⟩ | ⟨x, y, hv, hw, hxy⟩
    · rw [hv, hw]
      exact ih
    · rw [hv, hw]
      exact .some hxy

theorem finds_implicit : Finds R .implicit := fun _ _ h => .some h.top

end Frames

/-! ## canvases and steps -/

/-- similar frames, and the same text -/
structure Canvas.Similar (R : Value → Value → Prop) (c d : Canvas) : Prop where
  frames : c.frames.Similar R d.frames
  pieces : c.pieces = d.pieces

theorem Canvas.Similar.text {c d : Canvas} (h : c.Similar R d) : c.text = d.text := by
  rw [Canvas.text, h.pieces, Canvas.text]

theorem Canvas.Similar.write {c d : Canvas} (h : c.Similar R d) (s : Text) :
    (c.write s).Similar R (d.write s) := ⟨h.frames, congrArg (s :: ·) h.pieces⟩

namespace Rendering

/-- on similar canvases both steps fail at the same name or not at all, and they leave similar
canvases -/
def Alike (R : Value → Value → Prop) (a b : Rendering) : Prop :=
  ∀ c d : Canvas, c.Similar R d → (a c).1.Similar R (b d).1 ∧ (a c).2 = (b d).2

variable {a a' b b' : Rendering}

theorem alike_done : done.Alike R done := fun _ _ h => ⟨h, rfl⟩

theorem alike_fail (name : Text) : (fail name).Alike R (fail name) := fun _ _ h => ⟨h, rfl⟩

theorem alike_write (s : Text) : (write s).Alike R (write s) := fun _ _ h => ⟨h.write s, rfl⟩

theorem Alike.andThen (ha : a.Alike R a') (hb : b.Alike R b') :
    (a.andThen b).Alike R (a'.andThen b') := by
  intro c d hcd
  have hac := ha c d hcd
  rcases hc : a c with ⟨c₁, e⟩
  rcases hd : a' d with ⟨d₁, e'⟩
  rw [hc, hd] at hac
  obtain ⟨hsim, rfl⟩ : c₁.Similar R d₁ ∧ e = e' := hac
  cases e with
  | none =>
    rw [andThen_of_ok hc, andThen_of_ok hd]
    exact hb c₁ d₁ hsim
  | some name =>
    rw [andThen_of_fail hc, andThen_of_fail hd]
    exact ⟨hsim, rfl⟩

theorem Alike.within (h : a.Alike R b) {v w : Value} (hvw : R v w) :
    (within v a).Alike R (within w b) := by
  intro c d hcd
  obtain ⟨hsim, he⟩ := h { c with frames := c.frames.push v } { d with frames := d.frames.push w }
    ⟨hcd.frames.push hvw, hcd.pieces⟩
  exact ⟨⟨hsim.frames.pop, hsim.pieces⟩, he⟩

theorem Alike.each (h : a.Alike R b) {vs ws : List Value} (hvw : List.Forall₂ R vs ws) :
    (each a vs).Alike R (each b ws) := by
  induction hvw with
  | nil => exact alike_done
  | cons hhead _ ih => exact (h.within hhead).andThen ih

theorem Alike.indented (h : a.Alike R b) (indent : Text) :
    (indented indent a).Alike R (indented indent b) := by
  intro c d hcd
  have hab := h { c with pieces := [] } { d with pieces := [] } ⟨hcd.frames, rfl⟩
  rcases hc : a { c with pieces := [] } with ⟨c₁, e⟩
  rcases hd : b { d with pieces := [] } with ⟨d₁, e'⟩
  rw [hc, hd] at hab
  obtain ⟨hsim, rfl⟩ : c₁.Similar R d₁ ∧ e = e' := hab
  cases e with
  | none =>
    rw [indented_of_ok hc, indented_of_ok hd, hsim.text, hcd.pieces]
    exact ⟨⟨hsim.frames, rfl⟩, rfl⟩
  | some name =>
    rw [indented_of_fail hc, indented_of_fail hd, hcd.pieces]
    exact ⟨⟨hsim.frames, rfl⟩, rfl⟩

section
variable {name : Name}

theorem alike_var (hR : Similarity R) (hname : Frames.Finds R name) (escaped : Bool) :
    (var name escaped).Alike R (var name escaped) := by
  intro c d hcd
  rw [var, var]
  rcases rel_cases (hname c.frames d.frames hcd.frames) with ⟨hc, hd⟩ | ⟨v, w, hc, hd, hvw⟩
  · rw [hc, hd]
    exact alike_done c d hcd
  · rw [hc, hd]
    show (write (if escaped then Text.escape v.text else v.text) c).1.Similar R
      (write (if escaped then Text.escape w.text else w.text) d).1 ∧ _
    rw [hR.text hvw]
    exact alike_write _ c d hcd

theorem Alike.block (h : a.Alike R b) (hR : Similarity R) (hname : Frames.Finds R name) :
    (block name a).Alike R (block name b) := by
  intro c d hcd
  rw [block_eq, block_eq]
  rcases rel_cases (hname c.frames d.frames hcd.frames) with ⟨hc, hd⟩ | ⟨v, w, hc, hd, hvw⟩
  · rw [hc, hd]
    exact alike_done c d hcd
  · rw [hc, hd]
    rcases rel_cases (hR.items hvw) with ⟨hv, hw⟩ | ⟨vs, ws, hv, hw, hvs⟩
    · simp only [hv, hw, hR.truthy hvw]
      by_cases htrue : w.truthy = true
      · rw [if_pos htrue, if_pos htrue]
        exact h.within hvw c d hcd
      · rw [if_neg htrue, if_neg htrue]
        exact alike_done c d hcd
    · simp only [hv, hw]
      exact h.each hvs c d hcd

theorem Alike.invertedBlock (h : a.Alike R b) (hR : Similarity R)
    (hname : Frames.Finds R name) : (invertedBlock name a).Alike R (invertedBlock name b) := by
  intro c d hcd
  have heq : (c.frames.lookup name).any Value.truthy =
      (d.frames.lookup name).any Value.truthy := by
    rcases rel_cases (hname c.frames d.frames hcd.frames) with ⟨hc, hd⟩ | ⟨v, w, hc, hd, hvw⟩
    · rw [hc, hd]
    · rw [hc, hd]
      exact hR.truthy hvw
  rw [Rendering.invertedBlock, Rendering.invertedBlock, heq]
  by_cases htrue : (d.frames.lookup name).any Value.truthy = true
  · rw [if_pos htrue, if_pos htrue]
    exact alike_done c d hcd
  · rw [if_neg htrue, if_neg htrue]
    exact h c d hcd

end
end Rendering

/-! ## trees -/

/-- the name of a variable or of a block -/
def Node.name? : Node → Option Name
  | .text _ => none
  | .var name _ => some name
  | .block name _ _ => some name
  | .inclusion _ _ => none

section
variable {partials : Partials} {t : Tree}

theorem Tree.render_alike (hR : Similarity R)
    (ht : ∀ n ∈ t.nodes, ∀ name, n.name? = some name → Frames.Finds R name)
    {incl : Text → Option Text → Rendering}
    (hincl : ∀ name indent, (incl name indent).Alike R (incl name indent)) :
    (Tree.render incl t).Alike R (Tree.render incl t) := by
  apply render_rel (S := fun n => n ∈ t.nodes)
  case hdone => exact Rendering.alike_done
  case handThen => exact fun ha hb => ha.andThen hb
  case hblock =>
    intro a b name inverted children hmem h
    have hname := ht _ hmem name rfl
    cases inverted with
    | true => exact h.invertedBlock hR hname
    | false => exact h.block hR hname
  case htext => exact fun s _ => Rendering.alike_write s
  case hvar => exact fun name escaped hmem => Rendering.alike_var hR (ht _ hmem name rfl) escaped
  case hincl => exact fun name indent _ => hincl name indent
  case ht => exact fun n hn => hn

theorem inclusion_alike (hR : Similarity R)
    (htable : ∀ name u, partials name = some u →
      ∀ n ∈ u.nodes, ∀ name, n.name? = some name → Frames.Finds R name)
    (levels : Nat) (name : Text) (indent : Option Text) :
    (inclusion partials levels name indent).Alike R (inclusion partials levels name indent) := by
  refine inclusion_induct (R := fun _ _ _ a => a.Alike R a) ?unknown ?tooDeep ?plain ?indented
    levels name indent
  case unknown => exact fun _ _ _ _ => Rendering.alike_done
  case tooDeep => exact fun name _ _ _ => Rendering.alike_fail name
  case plain =>
    intro levels name u hu ih
    exact Tree.render_alike hR (htable name u hu) ih
  case indented =>
    intro levels name i u hu ih
    apply Rendering.Alike.indented
    exact Tree.render_alike hR (htable name u hu) ih

/-- if all names of the tree and of the templates are found alike, related data give the same
text, or the same failure -/
theorem render_similar (hR : Similarity R)
    (ht : ∀ n ∈ t.nodes, ∀ name, n.name? = some name → Frames.Finds R name)
    (htable : ∀ name u, partials name = some u →
      ∀ n ∈ u.nodes, ∀ name, n.name? = some name → Frames.Finds R name)
    {data data' : Value} (h : R data data') (maxDepth : Nat) :
    render partials maxDepth t data = render partials maxDepth t data' := by
  have halike := Tree.render_alike hR ht (inclusion_alike hR htable maxDepth)
  obtain ⟨hsim, he⟩ := halike (.ofData data) (.ofData data') ⟨⟨h, .nil⟩, rfl⟩
  rw [render, render]
  rcases hc : Tree.render (inclusion partials maxDepth) t (.ofData data) with ⟨c, e⟩
  rcases hd : Tree.render (inclusion partials maxDepth) t (.ofData data') with ⟨d, e'⟩
  rw [hc, hd] at hsim he
  obtain rfl : e = e' := he
  cases e with
  | none => exact congrArg Except.ok hsim.text
  | some name => rfl

end

end Mustache
