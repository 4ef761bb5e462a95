import Mathlib.Data.List.Basic
import Mustache.Render

/-!
# Renderings side by side

Two renderings of one tree that differ in their inclusions only open the same blocks on the same
canvas.  So what relates their outcomes at the leaves of the tree relates them at the whole tree,
if the relation is kept when steps are put together.

* `Tree.nodes`            all nodes of a tree, at every level
* `Rendering.Related`     the outcomes of two steps are related, on every canvas
* `Rendering.Compatible`  a relation that is kept when steps are put together
* `Tree.render_rel`       a relation between steps is carried from the nodes to the tree
* `Tree.render_related`   the same for a relation between outcomes
* `Rendering.FailsOnly`   the names at which a step can fail have a property
* `inclusion_induct`      induction on the levels of an inclusion, with one case for each thing it
                          may do
-/

namespace Mustache

/-! ## all nodes -/

mutual

def Node.nodes : Node → List Node
  | .text t => [.text t]
  | .var name escaped => [.var name escaped]
  | .block name inverted children => .block name inverted children :: Tree.nodes children
  | .inclusion name indent => [.inclusion name indent]

/-- the nodes of a tree in reading order, each block in front of its children -/
def Tree.nodes : Tree → List Node
  | [] => []
  | n :: ns => n.nodes ++ Tree.nodes ns

end

namespace Tree

theorem nodes_nil : nodes [] = [] := by rw [nodes]
theorem nodes_cons (n : Node) (ns : Tree) : nodes (n :: ns) = n.nodes ++ nodes ns := by rw [nodes]

theorem nodes_block_cons (name : Name) (inverted : Bool) (children ns : Tree) :
    nodes (.block name inverted children :: ns) =
      .block name inverted children :: (nodes children ++ nodes ns) := by
  rw [nodes_cons, Node.nodes, List.cons_append]

/-- a tree refers to the names of its inclusions -/
theorem mem_references_iff {t : Tree} {name : Text} :
    name ∈ t.references ↔ ∃ indent, Node.inclusion name indent ∈ t.nodes := by
  induction t using Tree.induct with
  | nil => simp [references_nil, nodes_nil]
  | text s ns ih => simp [references_cons, nodes_cons, Node.references, Node.nodes, ih]
  | var x escaped ns ih => simp [references_cons, nodes_cons, Node.references, Node.nodes, ih]
  | block x inverted children ns ihc ih =>
    simp [references_cons, nodes_block_cons, Node.references, ihc, ih, exists_or]
  | inclusion x indent ns ih =>
    simp [references_cons, nodes_cons, Node.references, Node.nodes, ih, exists_or]

end Tree

/-! ## related steps -/

namespace Rendering

/-- a relation between the outcomes of two steps on one canvas, which it may look at too -/
abbrev OutcomeRel := Canvas → Canvas × Option Text → Canvas × Option Text → Prop

/-- `Q` relates the outcomes of the two steps on every canvas -/
def Related (Q : OutcomeRel) (a b : Rendering) : Prop := ∀ c, Q c (a c) (b c)

/-- `Q` is kept when steps are put together -/
structure Compatible (Q : OutcomeRel) : Prop where
  done : Related Q done done
  andThen {a a' b b' : Rendering} :
    Related Q a a' → Related Q b b' → Related Q (a.andThen b) (a'.andThen b')
  within {a a' : Rendering} (v : Value) :
    Related Q a a' → Related Q (within v a) (within v a')

namespace Compatible
variable {Q : OutcomeRel} {a b : Rendering}

theorem each (hQ : Compatible Q) (h : Related Q a b) (vs : List Value) :
    Related Q (Rendering.each a vs) (Rendering.each b vs) := by
  induction vs with
  | nil => exact hQ.done
  | cons v vs ih => exact hQ.andThen (hQ.within v h) ih

theorem block (hQ : Compatible Q) (h : Related Q a b) (name : Name) :
    Related Q (Rendering.block name a) (Rendering.block name b) := by
  intro c
  -- both look up the name in the frames of `c`, so they take the same branch
  rw [Rendering.block, Rendering.block]
  split
  · next vs _ => exact hQ.each h vs c
  · next v _ _ =>
    split
    · exact hQ.within v h c
    · exact hQ.done c
  · exact hQ.done c

theorem invertedBlock (hQ : Compatible Q) (h : Related Q a b) (name : Name) :
    Related Q (Rendering.invertedBlock name a) (Rendering.invertedBlock name b) := by
  intro c
  rw [Rendering.invertedBlock, Rendering.invertedBlock]
  split
  · exact hQ.done c
  · exact h c

end Compatible
end Rendering

open Rendering in
/-- A relation between steps that is kept when steps are put one behind the other and when a step
is made a block is carried from the nodes to the tree made of them.  `S` tells the nodes that may
occur. -/
theorem Tree.render_rel {R : Rendering → Rendering → Prop}
    {incl incl' : Text → Option Text → Rendering} {S : Node → Prop} (hdone : R done done)
    (handThen : ∀ {a a' b b' : Rendering}, R a a' → R b b' → R (a.andThen b) (a'.andThen b'))
    (hblock : ∀ {a a' : Rendering} name inverted children, S (.block name inverted children) →
      R a a' → R (if inverted then invertedBlock name a else block name a)
        (if inverted then invertedBlock name a' else block name a'))
    (htext : ∀ s, S (.text s) → R (write s) (write s))
    (hvar : ∀ name escaped, S (.var name escaped) → R (var name escaped) (var name escaped))
    (hincl : ∀ name indent, S (.inclusion name indent) → R (incl name indent) (incl' name indent))
    {t : Tree} (ht : ∀ n ∈ t.nodes, S n) : R (Tree.render incl t) (Tree.render incl' t) := by
  induction t using Tree.induct with
  | nil =>
    rw [render_nil, render_nil]
    exact hdone
  | text s ns ih =>
    simp only [nodes_cons, Node.nodes, List.forall_mem_append, List.forall_mem_singleton] at ht
    rw [render_cons, render_cons, Node.render, Node.render]
    exact handThen (htext s ht.1) (ih ht.2)
  | var name escaped ns ih =>
    simp only [nodes_cons, Node.nodes, List.forall_mem_append, List.forall_mem_singleton] at ht
    rw [render_cons, render_cons, Node.render, Node.render]
    exact handThen (hvar name escaped ht.1) (ih ht.2)
  | block name inverted children ns ihc ih =>
    simp only [nodes_block_cons, List.forall_mem_cons, List.forall_mem_append] at ht
    rw [render_cons, render_cons, Node.render, Node.render]
    exact handThen (hblock name inverted children ht.1 (ihc ht.2.1)) (ih ht.2.2)
  | inclusion name indent ns ih =>
    simp only [nodes_cons, Node.nodes, List.forall_mem_append, List.forall_mem_singleton] at ht
    rw [render_cons, render_cons, Node.render, Node.render]
    exact handThen (hincl name indent ht.1) (ih ht.2)

open Rendering in
/-- Steps that are related at texts, variables and inclusions are related at the trees made of
them. -/
theorem Tree.render_related {Q : OutcomeRel} (hQ : Compatible Q)
    {incl incl' : Text → Option Text → Rendering} {S : Node → Prop}
    (htext : ∀ s, S (.text s) → Related Q (write s) (write s))
    (hvar : ∀ name escaped, S (.var name escaped) →
      Related Q (var name escaped) (var name escaped))
    (hincl : ∀ name indent, S (.inclusion name indent) →
      Related Q (incl name indent) (incl' name indent))
    {t : Tree} (ht : ∀ n ∈ t.nodes, S n) :
    Related Q (Tree.render incl t) (Tree.render incl' t) := by
  refine render_rel hQ.done hQ.andThen (fun name inverted _ _ h => ?_) htext hvar hincl ht
  cases inverted with
  | true => exact hQ.invertedBlock h name
  | false => exact hQ.block h name

theorem Rendering.compatible_eq : Compatible (fun _ o o' => o = o') := by
  constructor
  case done => exact fun c => rfl
  case andThen =>
    intro a a' b b' ha hb c
    obtain rfl : a = a' := funext ha
    obtain rfl : b = b' := funext hb
    rfl
  case within =>
    intro a a' v ha c
    obtain rfl : a = a' := funext ha
    rfl

/-- only what is done at the names it refers to counts for a tree -/
theorem Tree.render_congr {incl incl' : Text → Option Text → Rendering} {t : Tree}
    (h : ∀ name ∈ t.references, ∀ indent, incl name indent = incl' name indent) :
    Tree.render incl t = Tree.render incl' t := by
  refine funext (render_related (S := fun n => n ∈ t.nodes) Rendering.compatible_eq
    (fun s _ c => rfl) (fun name escaped _ c => rfl) (fun name indent hmem c => ?_)
    (fun n hn => hn))
  rw [h name (mem_references_iff.2 ⟨indent, hmem⟩) indent]

/-! ## failures -/

namespace Rendering

/-- wherever the step fails, it is at a name with the property -/
def FailsOnly (P : Text → Prop) (a : Rendering) : Prop := ∀ c bad, (a c).2 = some bad → P bad

variable {P : Text → Prop} {a : Rendering}

theorem failsOnly_done : done.FailsOnly P := fun _ _ h => nomatch h

theorem failsOnly_write (s : Text) : (write s).FailsOnly P := fun _ _ h => nomatch h

theorem failsOnly_fail {name : Text} (h : P name) : (fail name).FailsOnly P := by
  intro c bad hbad
  obtain rfl : name = bad := Option.some.inj hbad
  exact h

theorem failsOnly_var (name : Name) (escaped : Bool) : (var name escaped).FailsOnly P := by
  intro c bad hbad
  rw [var] at hbad
  split at hbad <;> cases hbad

theorem FailsOnly.mono {Q : Text → Prop} (h : a.FailsOnly P) (hPQ : ∀ name, P name → Q name) :
    a.FailsOnly Q := fun c bad hbad => hPQ bad (h c bad hbad)

theorem FailsOnly.indented (h : a.FailsOnly P) (indent : Text) :
    (Rendering.indented indent a).FailsOnly P := by
  intro c bad hbad
  rcases ha : a { c with pieces := [] } with ⟨c', _ | name⟩
  · rw [indented_of_ok ha] at hbad
    cases hbad
  · rw [indented_of_fail ha] at hbad
    apply h { c with pieces := [] } bad
    rw [ha]
    exact hbad

theorem compatible_failsOnly (P : Text → Prop) :
    Compatible (fun _ o _ => ∀ bad, o.2 = some bad → P bad) := by
  constructor
  case done => exact failsOnly_done
  case andThen =>
    intro a a' b b' ha hb c
    have hac := ha c
    rcases hc : a c with ⟨c', _ | name⟩
    · rw [andThen_of_ok hc]
      exact hb c'
    · rw [hc] at hac
      rw [andThen_of_fail hc]
      exact hac
  case within => exact fun v ha _ => ha _

end Rendering

/-- a tree can fail only where an inclusion that it refers to can -/
theorem Tree.render_failsOnly {t : Tree} {incl : Text → Option Text → Rendering} {P : Text → Prop}
    (h : ∀ name ∈ t.references, ∀ indent, (incl name indent).FailsOnly P) :
    (Tree.render incl t).FailsOnly P := by
  show Rendering.Related (fun _ o _ => ∀ bad, o.2 = some bad → P bad) (Tree.render incl t)
    (Tree.render incl t)
  apply render_related (Rendering.compatible_failsOnly P) (S := fun n => n ∈ t.nodes)
  case htext => exact fun s _ => Rendering.failsOnly_write s
  case hvar => exact fun name escaped _ => Rendering.failsOnly_var name escaped
  case hincl =>
    intro name indent hmem
    exact h name (mem_references_iff.2 ⟨indent, hmem⟩) indent
  case ht => exact fun n hn => hn

/-! ## inclusions -/

/-- An inclusion does nothing, or fails, or renders a template whose own inclusions have one level
less. -/
theorem inclusion_induct {partials : Partials} {R : Nat → Text → Option Text → Rendering → Prop}
    (unknown : ∀ levels name indent, partials name = none → R levels name indent .done)
    (tooDeep : ∀ name indent u, partials name = some u → R 0 name indent (.fail name))
    (plain : ∀ levels name u, partials name = some u →
      (∀ name indent, R levels name indent (inclusion partials levels name indent)) →
      R (levels + 1) name none (Tree.render (inclusion partials levels) u))
    (indented : ∀ levels name i u, partials name = some u →
      (∀ name indent, R levels name indent (inclusion partials levels name indent)) →
      R (levels + 1) name (some i) (.indented i (Tree.render (inclusion partials levels) u)))
    (levels : Nat) (name : Text) (indent : Option Text) :
    R levels name indent (inclusion partials levels name indent) := by
  induction levels generalizing name indent with
  | zero =>
    cases hu : partials name with
    | none =>
      rw [inclusion_of_eq_none hu]
      exact unknown 0 name indent hu
    | some u =>
      rw [inclusion_zero_of_eq_some hu]
      exact tooDeep name indent u hu
  | succ levels ih =>
    cases hu : partials name with
    | none =>
      rw [inclusion_of_eq_none hu]
      exact unknown (levels + 1) name indent hu
    | some u =>
      cases indent with
      | none =>
        rw [inclusion_succ_of_eq_some hu]
        exact plain levels name u hu ih
      | some i =>
        rw [inclusion_succ_some_of_eq_some hu]
        exact indented levels name i u hu ih

end Mustache
