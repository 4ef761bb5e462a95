import Mathlib.Data.List.Basic
import Mustache.Proofs.Simulation

/-!
# Rendering piece by piece

A step is handed a canvas on which other steps have written before it.  Here it is shown that a
tree makes nothing of what stands there: it gives the frames back as they were, also where it fails,
and what it writes, and where it fails, hangs on the frames alone.  So two trees, one behind the
other, can be rendered apart, and their texts joined.

* `Rendering.result`   the text on the canvas after a step, or the name it failed at
* `Rendering.output`   the same on a canvas of its own
* `Rendering.Tidy`     a step that writes behind what is there, and gives the frames back
* `inclusion_tidy`     every inclusion is tidy, and so is every tree
* `render_append_iff`  two trees one behind the other
-/

namespace Mustache

/-- what was written first stands first -/
theorem Canvas.text_append (f : Frames) (written pieces : List Text) :
    (⟨f, written ++ pieces⟩ : Canvas).text = (⟨f, pieces⟩ : Canvas).text ++
      (⟨f, written⟩ : Canvas).text := by
  simp [Canvas.text]

namespace Rendering

/-- the text on the canvas after the step, or the name of the inclusion it failed at -/
def result (a : Rendering) (c : Canvas) : Except Text Text :=
  match a c with
  | (c', none) => .ok c'.text
  | (_, some name) => .error name

/-- what the step writes in these frames, on a canvas of its own -/
def output (a : Rendering) (f : Frames) : Except Text Text := a.result ⟨f, []⟩

/-- The step gives the frames back, and it writes behind what is on the canvas: what it writes, and
how it ends, is the same for all that may stand there. -/
def Tidy (a : Rendering) : Prop :=
  ∀ f, ∃ written e, ∀ pieces, a ⟨f, pieces⟩ = (⟨f, written ++ pieces⟩, e)

variable {a b : Rendering}

/-! ## tidy steps -/

theorem tidy_done : done.Tidy := fun _ => ⟨[], none, fun _ => rfl⟩

theorem tidy_write (t : Text) : (write t).Tidy := fun _ => ⟨[t], none, fun _ => rfl⟩

theorem tidy_fail (name : Text) : (fail name).Tidy := fun _ => ⟨[], some name, fun _ => rfl⟩

/-- a second step starts from the frames that the first one was given -/
theorem Tidy.andThen (ha : a.Tidy) (hb : b.Tidy) : (a.andThen b).Tidy := by
  intro f
  obtain ⟨first, e, hfirst⟩ := ha f
  cases e with
  | none =>
    obtain ⟨second, e, hsecond⟩ := hb f
    refine ⟨second ++ first, e, fun pieces => ?_⟩
    rw [andThen_of_ok (hfirst pieces), hsecond, List.append_assoc]
  | some name => exact ⟨first, some name, fun pieces => andThen_of_fail (hfirst pieces) b⟩

/-- the frame that is taken away is the one that was put there, since the step gives it back -/
theorem Tidy.within (h : a.Tidy) (v : Value) : (within v a).Tidy := by
  intro f
  obtain ⟨written, e, hwritten⟩ := h (f.push v)
  refine ⟨written, e, fun pieces => ?_⟩
  unfold Rendering.within
  rw [hwritten]
  rfl

theorem Tidy.each (h : a.Tidy) (vs : List Value) : (each a vs).Tidy := by
  induction vs with
  | nil => exact tidy_done
  | cons v vs ih => exact (h.within v).andThen ih

/-- the canvas apart is empty at first, and on a failure nothing of it is kept -/
theorem Tidy.indented (h : a.Tidy) (indent : Text) : (indented indent a).Tidy := by
  intro f
  obtain ⟨written, e, hwritten⟩ := h f
  cases e with
  | none =>
    refine ⟨[Text.indentLines (⟨f, written ++ []⟩ : Canvas).text indent], none, fun pieces => ?_⟩
    rw [indented_of_ok (hwritten [])]
    rfl
  | some name =>
    refine ⟨[], some name, fun pieces => ?_⟩
    rw [indented_of_fail (hwritten [])]
    rfl

/-- a step that looks at the frames, and then does what some tidy step does, is tidy -/
theorem tidy_of_forall (h : ∀ f, ∃ b : Rendering, b.Tidy ∧
    ∀ c : Canvas, c.frames = f → a c = b c) : a.Tidy := by
  intro f
  obtain ⟨b, hb, heq⟩ := h f
  obtain ⟨written, e, hwritten⟩ := hb f
  exact ⟨written, e, fun pieces => (heq ⟨f, pieces⟩ rfl).trans (hwritten pieces)⟩

theorem tidy_var (name : Name) (escaped : Bool) : (var name escaped).Tidy := by
  refine tidy_of_forall fun f => ?_
  cases hv : f.lookup name with
  | none => exact ⟨done, tidy_done, fun c hc => by simp only [var, hc, hv]⟩
  | some v =>
    refine ⟨write (if escaped then Text.escape v.text else v.text), tidy_write _, fun c hc => ?_⟩
    simp only [var, hc, hv]

/-! ## blocks -/

theorem lookup_cases (f : Frames) (name : Name) :
    (∃ v, f.lookup name = some v ∧ v.truthy = true) ∨
      ∀ v, f.lookup name = some v → v.truthy = false := by
  by_cases h : ∃ v, f.lookup name = some v ∧ v.truthy = true
  · exact .inl h
  · exact .inr fun v hv => Bool.eq_false_iff.2 fun htrue => h ⟨v, hv, htrue⟩

theorem Tidy.block (h : a.Tidy) (name : Name) : (block name a).Tidy := by
  refine tidy_of_forall fun f => ?_
  rcases lookup_cases f name with ⟨v, hv, htrue⟩ | hfalse
  · by_cases hlist : ∃ vs, v = .list vs
    · obtain ⟨vs, rfl⟩ := hlist
      exact ⟨_, h.each vs, by rintro c rfl; exact block_of_list hv⟩
    · exact ⟨_, h.within v, by rintro c rfl; exact block_of_truthy hv (not_exists.1 hlist) htrue⟩
  · exact ⟨_, tidy_done, by rintro c rfl; exact block_of_falsy hfalse⟩

theorem Tidy.invertedBlock (h : a.Tidy) (name : Name) : (invertedBlock name a).Tidy := by
  refine tidy_of_forall fun f => ?_
  rcases lookup_cases f name with ⟨v, hv, htrue⟩ | hfalse
  · exact ⟨_, tidy_done, by rintro c rfl; exact invertedBlock_of_truthy hv htrue⟩
  · exact ⟨_, h, by rintro c rfl; exact invertedBlock_of_falsy hfalse⟩

/-! ## what a tidy step writes -/

theorem result_congr {c d : Canvas} (h : a c = b d) : a.result c = b.result d := by
  rw [result, h, result]

theorem result_of_ok {c c' : Canvas} (h : a c = (c', none)) : a.result c = .ok c'.text := by
  rw [result, h]

theorem result_of_fail {c c' : Canvas} {name : Text} (h : a c = (c', some name)) :
    a.result c = .error name := by
  rw [result, h]

theorem Tidy.frames_eq (h : a.Tidy) (c : Canvas) : (a c).1.frames = c.frames := by
  obtain ⟨written, e, hwritten⟩ := h c.frames
  show (a ⟨c.frames, c.pieces⟩).1.frames = c.frames
  rw [hwritten]

/-- what stands on the canvas stays in front -/
theorem Tidy.result_eq (h : a.Tidy) (c : Canvas) :
    a.result c = (a.output c.frames).map (c.text ++ ·) := by
  obtain ⟨written, e, hwritten⟩ := h c.frames
  cases e with
  | none =>
    rw [output, result_of_ok (hwritten []), result_of_ok (hwritten c.pieces), List.append_nil,
      Canvas.text_append]
    rfl
  | some name =>
    rw [output, result_of_fail (hwritten []), result_of_fail (hwritten c.pieces)]
    rfl

/-- the second step finds the frames of the first one, and its text comes behind -/
theorem Tidy.result_andThen (ha : a.Tidy) (hb : b.Tidy) (c : Canvas) :
    (a.andThen b).result c = (a.output c.frames).bind fun x =>
      (b.output c.frames).map fun y => c.text ++ x ++ y := by
  obtain ⟨first, e, hfirst⟩ := ha c.frames
  cases e with
  | none =>
    have hthen : (a.andThen b).result c = b.result ⟨c.frames, first ++ c.pieces⟩ :=
      result_congr (andThen_of_ok (hfirst c.pieces) b)
    have hout : a.output c.frames = .ok (⟨c.frames, first⟩ : Canvas).text := by
      rw [output, result_of_ok (hfirst []), List.append_nil]
    rw [hthen, hb.result_eq, Canvas.text_append, hout]
    rfl
  | some name =>
    rw [result_of_fail (andThen_of_fail (hfirst c.pieces) b), output, result_of_fail (hfirst [])]
    rfl

end Rendering

/-! ## trees -/

open Rendering

theorem Tree.render_tidy {incl : Text → Option Text → Rendering}
    (h : ∀ name indent, (incl name indent).Tidy) (t : Tree) : (Tree.render incl t).Tidy := by
  refine @render_rel (fun a _ => a.Tidy) incl incl (fun _ => True) tidy_done ?andThen ?block ?text
    ?var ?inclusion t fun _ _ => trivial
  case andThen => exact fun ha hb => ha.andThen hb
  case block =>
    intro a _ name inverted _ _ ha
    cases inverted with
    | true => exact ha.invertedBlock name
    | false => exact ha.block name
  case text => exact fun s _ => tidy_write s
  case var => exact fun name escaped _ => tidy_var name escaped
  case inclusion => exact fun name indent _ => h name indent

theorem inclusion_tidy (partials : Partials) (levels : Nat) (name : Text) (indent : Option Text) :
    (inclusion partials levels name indent).Tidy := by
  refine inclusion_induct (R := fun _ _ _ a => a.Tidy) ?unknown ?tooDeep ?plain ?indented
    levels name indent
  case unknown => exact fun _ _ _ _ => tidy_done
  case tooDeep => exact fun name _ _ _ => tidy_fail name
  case plain => exact fun _ _ u _ ih => Tree.render_tidy ih u
  case indented => exact fun _ _ i u _ ih => (Tree.render_tidy ih u).indented i

/-- **Two trees are rendered one behind the other.**  With any number of levels left for inclusions,
they succeed together if each of them does, in the same frames and on a canvas of its own, and then
their texts come behind what stood on the canvas; otherwise they fail as the first one does, or else
as the second.  After a rendering, failed or not, the frames are what they were. -/
theorem render_append_iff (partials : Partials) (levels : Nat) (t u : Tree) (c : Canvas) :
    (∀ out, (Tree.render (inclusion partials levels) (t ++ u)).result c = .ok out ↔
      ∃ x y, (Tree.render (inclusion partials levels) t).output c.frames = .ok x ∧
        (Tree.render (inclusion partials levels) u).output c.frames = .ok y ∧
        out = c.text ++ x ++ y) ∧
    (∀ bad, (Tree.render (inclusion partials levels) (t ++ u)).result c = .error bad ↔
      (Tree.render (inclusion partials levels) t).output c.frames = .error bad ∨
      (∃ x, (Tree.render (inclusion partials levels) t).output c.frames = .ok x) ∧
        (Tree.render (inclusion partials levels) u).output c.frames = .error bad) ∧
    ∀ w, (Tree.render (inclusion partials levels) w c).1.frames = c.frames := by
  have htidy := Tree.render_tidy (inclusion_tidy partials levels)
  have hframes := fun w => (htidy w).frames_eq c
  rw [Tree.render_append, (htidy t).result_andThen (htidy u)]
  cases (Tree.render (inclusion partials levels) t).output c.frames with
  | error name => exact ⟨by simp [Except.bind], by simp [Except.bind], hframes⟩
  | ok x =>
    cases (Tree.render (inclusion partials levels) u).output c.frames with
    | error name =>
      exact ⟨by simp [Except.bind, Except.map], by simp [Except.bind, Except.map], hframes⟩
    | ok y =>
      exact ⟨by simp [Except.bind, Except.map, eq_comm], by simp [Except.bind, Except.map], hframes⟩

end Mustache
