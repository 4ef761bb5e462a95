import Mustache.Proofs.Composition

/-!
# A block and its inverted twin

A block asks first whether the value of its name is a list, and only for other values whether it is
true; its inverted twin asks only whether it is true.  Here the two are put one behind the other,
under one name, and exactly one of them is rendered: the block once for each element of a list with
elements, true or not, or once for any other true value, and the twin in all other cases.

* `Rendering.Tidy.result_each`     a body rendered for each of some values
* `Tree.render_blockPair`          the two blocks are two steps
* `render_block_or_inverted`       which body is rendered, for what, and in which frames
-/

namespace Mustache

namespace Rendering
variable {a : Rendering}

theorem within_output (v : Value) (a : Rendering) (f : Frames) :
    (within v a).output f = a.output (f.push v) := by
  show (within v a).result ⟨f, []⟩ = a.result ⟨f.push v, []⟩
  unfold result within
  rcases a ⟨f.push v, []⟩ with ⟨c, _ | name⟩ <;> rfl

/-- for each value in turn the step is done in the same frames, with the value on top; the first
failure ends it -/
theorem Tidy.result_each (h : a.Tidy) (vs : List Value) (c : Canvas) :
    (Rendering.each a vs).result c = (vs.mapM fun v => a.output (c.frames.push v)).map
      fun texts => c.text ++ texts.flatten := by
  induction vs generalizing c with
  | nil =>
    show Except.ok c.text = Except.ok (c.text ++ [])
    rw [List.append_nil]
  | cons v vs ih =>
    have hrest : (Rendering.each a vs).output c.frames =
        (vs.mapM fun v => a.output (c.frames.push v)).map List.flatten := ih ⟨c.frames, []⟩
    rw [Rendering.each, (h.within v).result_andThen (h.each vs), within_output, hrest,
      List.mapM_cons]
    cases a.output (c.frames.push v) with
    | error name => rfl
    | ok x =>
      cases vs.mapM fun v => a.output (c.frames.push v) with
      | error name => rfl
      | ok texts =>
        show Except.ok (c.text ++ x ++ texts.flatten) = Except.ok (c.text ++ (x :: texts).flatten)
        rw [List.flatten_cons, List.append_assoc]

/-- a step that gives the frames back shows the inverted block the same value -/
theorem Tidy.andThen_invertedBlock (h : a.Tidy) {c : Canvas} {name : Name} {v : Value}
    (hv : c.frames.lookup name = some v) (htrue : v.truthy = true) (body : Rendering) :
    a.andThen (Rendering.invertedBlock name body) c = a c := by
  have hframes := h.frames_eq c
  rcases hc : a c with ⟨c', _ | bad⟩
  · rw [hc] at hframes
    rw [andThen_of_ok hc]
    exact invertedBlock_of_truthy (by rw [hframes, hv]) htrue
  · exact andThen_of_fail hc _

end Rendering

open Rendering

theorem Tree.render_blockPair (incl : Text → Option Text → Rendering) (x : Name) (b d : Tree) :
    Tree.render incl [.block x false b, .block x true d] =
      (Rendering.block x (Tree.render incl b)).andThen
        (Rendering.invertedBlock x (Tree.render incl d)) := by
  rw [render_cons, render_cons, render_nil, andThen_done, Node.render, Node.render]
  rfl

/-- **A block and its inverted twin are exact complements.**  If the value of their name is a list
with elements, the body of the block is rendered once for each element, with that element alone on
top of the frames; if it is any other true value, once, with the value on top; and if there is no
true value, the body of the twin is rendered, in the frames as they are.  The texts come one behind
the other, and the first failure is that of the whole. -/
theorem render_block_or_inverted (partials : Partials) (levels : Nat) (x : Name) (b d : Tree)
    (c : Canvas) :
    (∀ vs, c.frames.lookup x = some (.list vs) → vs ≠ [] →
      (Tree.render (inclusion partials levels) [.block x false b, .block x true d]).result c =
        (vs.mapM fun v =>
          (Tree.render (inclusion partials levels) b).output (c.frames.push v)).map
            fun texts => c.text ++ texts.flatten) ∧
    (∀ v, c.frames.lookup x = some v → v.truthy = true → (∀ vs, v ≠ .list vs) →
      (Tree.render (inclusion partials levels) [.block x false b, .block x true d]).result c =
        ((Tree.render (inclusion partials levels) b).output (c.frames.push v)).map (c.text ++ ·)) ∧
    ((∀ v, c.frames.lookup x = some v → v.truthy = false) →
      Tree.render (inclusion partials levels) [.block x false b, .block x true d] c =
        Tree.render (inclusion partials levels) d c) := by
  have htidy := Tree.render_tidy (inclusion_tidy partials levels) b
  have hblock := htidy.block x
  rw [Tree.render_blockPair]
  refine ⟨fun vs hv hne => ?_, fun v hv htrue hlist => ?_, fun hfalse => ?_⟩
  · have htrue : (Value.list vs).truthy = true := by simpa [Value.truthy] using hne
    rw [result_congr (hblock.andThen_invertedBlock hv htrue _), result_congr (block_of_list hv),
      htidy.result_each]
  · rw [result_congr (hblock.andThen_invertedBlock hv htrue _),
      result_congr (block_of_truthy hv hlist htrue), (htidy.within v).result_eq, within_output]
  · rw [andThen_of_ok (block_of_falsy hfalse)]
    exact invertedBlock_of_falsy hfalse

/-- something is written already; one list has a true element between false ones, one has none -/
def dishes : Canvas :=
  ⟨.ofRoot (.map [(['m'], .list [.null, .string ['x'], .bool false]), (['n'], .string ['y']),
    (['o'], .list [])]), [[':']]⟩

/-- the value in brackets, or a dash -/
def dish (key : Char) : Tree :=
  [.block (.dotted [key] []) false [.text ['('], .var .implicit true, .text [')']],
    .block (.dotted [key] []) true [.text ['-']]]

-- a list with elements, another true value, and a list without elements
theorem render_block_or_inverted_dishes :
    dishes.frames.lookup (.dotted ['m'] []) = some (.list [.null, .string ['x'], .bool false]) ∧
    (Tree.render (inclusion (fun _ => none) 0) (dish 'm')).result dishes =
      .ok ":()(x)(false)".toList ∧
    dishes.frames.lookup (.dotted ['n'] []) = some (.string ['y']) ∧
    (Tree.render (inclusion (fun _ => none) 0) (dish 'n')).result dishes = .ok ":(y)".toList ∧
    dishes.frames.lookup (.dotted ['o'] []) = some (.list []) ∧
    Tree.render (inclusion (fun _ => none) 0) (dish 'o') dishes =
      Tree.render (inclusion (fun _ => none) 0) [.text ['-']] dishes := by
  have hm : dishes.frames.lookup (.dotted ['m'] []) =
      some (.list [.null, .string ['x'], .bool false]) := by rfl
  have hn : dishes.frames.lookup (.dotted ['n'] []) = some (.string ['y']) := by rfl
  have ho : dishes.frames.lookup (.dotted ['o'] []) = some (.list []) := by rfl
  have hfalse : ∀ v, dishes.frames.lookup (.dotted ['o'] []) = some v → v.truthy = false := by
    intro v hv
    obtain rfl := Option.some.inj (ho.symm.trans hv)
    rfl
  obtain ⟨hlist, -, -⟩ := render_block_or_inverted (fun _ => none) 0 (.dotted ['m'] []) _ _ dishes
  obtain ⟨-, hvalue, -⟩ := render_block_or_inverted (fun _ => none) 0 (.dotted ['n'] []) _ _ dishes
  obtain ⟨-, -, htwin⟩ := render_block_or_inverted (fun _ => none) 0 (.dotted ['o'] []) _ _ dishes
  refine ⟨hm, (hlist _ hm (List.cons_ne_nil _ _)).trans ?_, hn, (hvalue _ hn rfl ?_).trans ?_, ho,
    htwin hfalse⟩
  · rfl
  · rintro vs ⟨⟩
  · rfl

end Mustache
