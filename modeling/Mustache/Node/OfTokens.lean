import Mustache.Node
import Mustache.Token

/-!
# Nesting tags into nodes

The tokens are taken from left to right.  `Nest` keeps the nodes of the innermost open block and,
for each open block, the nodes before it.  Opening a block starts an empty list of nodes, closing
one joins the texts among its nodes and puts the block behind the nodes before it.

* `Nest.step`      one token
* `Nest.finish`    the end of the text: no block may be open
* `Tree.ofTokens`  both
-/

namespace Mustache

/-- a block whose closing tag has not come yet -/
structure OpenBlock where
  name : Text
  inverted : Bool
  offset : Nat
  /-- the nodes before the block, the latest first -/
  before : List Node
  deriving Repr

structure Nest where
  /-- the open blocks, the innermost first -/
  stack : List OpenBlock
  /-- the nodes of the innermost open block, the latest first -/
  current : List Node
  deriving Repr

namespace Nest

def empty : Nest := ⟨[], []⟩

def add (n : Node) (b : Nest) : Nest := { b with current := n :: b.current }

def enter (name : Text) (inverted : Bool) (offset : Nat) (b : Nest) : Except Fault Nest :=
  if b.stack.length ≥ maxNesting then .error ⟨.tooDeep, offset⟩
  else .ok ⟨⟨name, inverted, offset, b.current⟩ :: b.stack, []⟩

/-- a block is closed under the text it was opened with -/
def leave (name : Text) (offset : Nat) (b : Nest) : Except Fault Nest :=
  match b.stack with
  | [] => .error ⟨.unopened name, offset⟩
  | o :: stack =>
    if o.name = name then
      .ok ⟨stack, .block (Name.ofText name) o.inverted (Tree.ofReversed b.current) :: o.before⟩
    else .error ⟨.mismatched o.name name, offset⟩

def step (b : Nest) : Token → Except Fault Nest
  | .text t => .ok (b.add (.text t))
  | .tag t indent =>
    match t.kind with
    | .var escaped => .ok (b.add (.var (Name.ofText t.content) escaped))
    | .block inverted => b.enter t.content inverted t.offset
    | .close => b.leave t.content t.offset
    | .inclusion => .ok (b.add (.inclusion t.content indent))
    | .comment => .ok b
    | .delims => .ok b

theorem step_block {b : Nest} (h : b.stack.length < maxNesting) (name : Text) (inverted : Bool)
    (offset : Nat) (indent : Option Text) :
    b.step (.tag ⟨.block inverted, name, offset⟩ indent) =
      .ok ⟨⟨name, inverted, offset, b.current⟩ :: b.stack, []⟩ :=
  if_neg (Nat.not_le.2 h)

theorem step_close (o : OpenBlock) (stack : List OpenBlock) (nodes : List Node) (offset : Nat)
    (indent : Option Text) :
    step ⟨o :: stack, nodes⟩ (.tag ⟨.close, o.name, offset⟩ indent) =
      .ok ⟨stack, .block (Name.ofText o.name) o.inverted (Tree.ofReversed nodes) :: o.before⟩ :=
  if_pos rfl

def run : Nest → List Token → Except Fault Nest
  | b, [] => .ok b
  | b, t :: ts =>
    match b.step t with
    | .error f => .error f
    | .ok b' => run b' ts

theorem run_cons {b b' : Nest} {t : Token} (h : b.step t = .ok b') (ts : List Token) :
    b.run (t :: ts) = b'.run ts := by
  rw [run, h]

theorem run_append (b : Nest) (ts us : List Token) :
    b.run (ts ++ us) = (b.run ts).bind fun b' => b'.run us := by
  induction ts generalizing b with
  | nil => rfl
  | cons t ts ih =>
    simp only [List.cons_append, run]
    cases b.step t with
    | error f => rfl
    | ok b' => exact ih b'

def finish (b : Nest) : Except Fault Tree :=
  match b.stack with
  | [] => .ok (Tree.ofReversed b.current)
  | o :: _ => .error ⟨.unclosedBlock o.name, o.offset⟩

end Nest

def Tree.ofTokens (ts : List Token) : Except Fault Tree :=
  (Nest.empty.run ts).bind Nest.finish

/-- behind tokens that become a tree no block is open -/
theorem Tree.exists_run_of_ofTokens {ts : List Token} {tree : Tree} (h : ofTokens ts = .ok tree) :
    ∃ nodes, Nest.empty.run ts = .ok ⟨[], nodes⟩ ∧ tree = ofReversed nodes := by
  change (Nest.empty.run ts).bind Nest.finish = .ok tree at h
  cases hrun : Nest.empty.run ts with
  | error f =>
    rw [hrun] at h
    cases h
  | ok b =>
    rw [hrun] at h
    obtain ⟨stack, nodes⟩ := b
    cases stack with
    | nil =>
      cases h
      exact ⟨nodes, rfl, rfl⟩
    | cons o stack => cases h

end Mustache
