import Mustache.Name

/-!
# Nodes

A parsed template is a list of nodes.

* `text`       literal text
* `var`        the value of a name, escaped or as it is
* `block`      a part rendered for a value: once per element, once, or not at all; the inverted
               kind is rendered when the other is not
* `inclusion`  another template in this place, its lines indented

* `Tree.induct`      induction on a tree, with one case for each kind of node
* `Tree.cons`        a node in front of a tree, text joined with the text behind it
* `Tree.references`  the names of the included templates in reading order, one for each inclusion
-/

namespace Mustache

inductive Node where
  | text (t : Text)
  | var (name : Name) (escaped : Bool)
  | block (name : Name) (inverted : Bool) (children : List Node)
  | inclusion (name : Text) (indent : Option Text)
  deriving Repr

abbrev Tree := List Node

/-- a tree is empty, or a node of one of the four kinds stands in front of a tree -/
theorem Tree.induct {P : Tree → Prop} (nil : P [])
    (text : ∀ t ns, P ns → P (.text t :: ns))
    (var : ∀ name escaped ns, P ns → P (.var name escaped :: ns))
    (block : ∀ name inverted children ns,
      P children → P ns → P (.block name inverted children :: ns))
    (inclusion : ∀ name indent ns, P ns → P (.inclusion name indent :: ns)) :
    ∀ tree, P tree
  | [] => nil
  | .text t :: ns => text t ns (induct nil text var block inclusion ns)
  | .var name escaped :: ns => var name escaped ns (induct nil text var block inclusion ns)
  | .block name inverted children :: ns =>
    block name inverted children ns (induct nil text var block inclusion children)
      (induct nil text var block inclusion ns)
  | .inclusion name indent :: ns =>
    inclusion name indent ns (induct nil text var block inclusion ns)

/-! ## joining text -/

namespace Tree

/-- a node in front of a tree: text joins the text behind it, and empty text vanishes -/
def cons (n : Node) (ns : Tree) : Tree :=
  match n with
  | .text t =>
    if t = [] then ns
    else
      match ns with
      | .text u :: rest => .text (t ++ u) :: rest
      | _ => .text t :: ns
  | _ => n :: ns

theorem cons_text_cons_text (a b : Text) (ns : Tree) :
    cons (.text a) (cons (.text b) ns) = cons (.text (a ++ b)) ns := by
  by_cases hb : b = []
  · rw [hb, List.append_nil]
    rfl
  · cases a with
    | nil => rfl
    | cons c a =>
      cases ns with
      | nil => simp [cons, hb]
      | cons n ns => cases n <;> simp [cons, hb]

/-- the tree of nodes that are given with the latest one first -/
def ofReversed (nodes : List Node) : Tree := nodes.foldl (fun ns n => cons n ns) []

theorem ofReversed_eq_foldr (nodes : List Node) :
    ofReversed nodes = nodes.reverse.foldr cons [] := by
  rw [ofReversed, List.foldr_reverse]

end Tree

/-! ## references -/

mutual

def Node.references : Node → List Text
  | .text _ => []
  | .var _ _ => []
  | .block _ _ children => Tree.references children
  | .inclusion name _ => [name]

def Tree.references : Tree → List Text
  | [] => []
  | n :: ns => n.references ++ Tree.references ns

end

theorem Tree.references_nil : Tree.references [] = [] := by rw [Tree.references]
theorem Tree.references_cons (n : Node) (ns : Tree) :
    Tree.references (n :: ns) = n.references ++ Tree.references ns := by rw [Tree.references]

end Mustache
