import Mathlib.Data.List.Infix
import Mustache.Node.OfTokens

/-!
# Which tokens are nested

Tokens become a tree exactly when their blocks are nested, and the tree, read from left to right,
gives the tokens back.

* `Nested`                 every block is closed, under its own text, inner blocks first
* `Token.FitFrom`          so many blocks are open, and never too many while the tokens are read
* `Mark`                   what is left of a token in a tree; `Mark.join` joins adjacent texts
* `Tree.marks`             the marks of a tree in reading order
* `Nest.Pending`           the invariant of the stack: what was read up to here
* `Tree.ofTokens_nested`   when tokens become a tree, and what the tree is made of
-/

namespace Mustache

/-! ## nested tokens -/

namespace Token

def opens : Token → Bool
  | .tag ⟨.block _, _, _⟩ _ => true
  | _ => false

def closes : Token → Bool
  | .tag ⟨.close, _, _⟩ _ => true
  | _ => false

/-- with `depth` blocks open in front, at most 512 are open at any point of these tokens -/
def FitFrom (depth : Nat) (ts : List Token) : Prop :=
  ∀ pre, pre <+: ts → depth + pre.countP opens ≤ pre.countP closes + 512

end Token

/-- every block is closed under the text it was opened with, and inner blocks before outer ones -/
inductive Nested : List Token → Prop where
  | nil : Nested []
  | flat {t : Token} {ts : List Token} :
      t.opens = false → t.closes = false → Nested ts → Nested (t :: ts)
  | block {name : Text} {inverted : Bool} {o₁ o₂ : Nat} {i₁ i₂ : Option Text}
      {body rest : List Token} : Nested body → Nested rest →
      Nested (.tag ⟨.block inverted, name, o₁⟩ i₁ :: (body ++ .tag ⟨.close, name, o₂⟩ i₂ :: rest))

namespace Nested

theorem append {ts us : List Token} (ht : Nested ts) (hu : Nested us) : Nested (ts ++ us) := by
  induction ht with
  | nil => exact hu
  | flat hopens hcloses _ ih => exact .flat hopens hcloses ih
  | block hbody _ _ ih =>
    rw [List.cons_append, List.append_assoc, List.cons_append]
    exact .block hbody ih

theorem countP_eq {ts : List Token} (h : Nested ts) :
    ts.countP Token.opens = ts.countP Token.closes := by
  induction h with
  | nil => rfl
  | flat hopens hcloses _ ih =>
    rw [List.countP_cons_of_neg (by simp [hopens]), List.countP_cons_of_neg (by simp [hcloses]), ih]
  | block _ _ ihb ihr =>
    simp only [List.countP_cons, List.countP_append, ihb, ihr, Token.opens, Token.closes]
    simp only [if_true, Bool.false_eq_true, if_false]
    omega

end Nested

namespace Token.FitFrom
variable {depth : Nat} {ts us : List Token}

theorem depth_le (h : FitFrom depth ts) : depth ≤ 512 := h [] List.nil_prefix

theorem of_append (h : FitFrom depth (ts ++ us)) : FitFrom depth ts :=
  fun pre hpre => h pre (hpre.trans (List.prefix_append ts us))

theorem of_flat {t : Token} (hopens : t.opens = false) (hcloses : t.closes = false)
    (h : FitFrom depth (t :: ts)) : FitFrom depth ts := by
  intro pre hpre
  have hcount := h (t :: pre) (List.cons_prefix_cons.2 ⟨rfl, hpre⟩)
  rwa [List.countP_cons_of_neg (by simp [hopens]), List.countP_cons_of_neg (by simp [hcloses])]
    at hcount

theorem of_block {name : Text} {inverted : Bool} {o : Nat} {i : Option Text}
    (h : FitFrom depth (.tag ⟨.block inverted, name, o⟩ i :: ts)) : FitFrom (depth + 1) ts := by
  intro pre hpre
  have hcount := h (_ :: pre) (List.cons_prefix_cons.2 ⟨rfl, hpre⟩)
  rw [List.countP_cons_of_pos rfl, List.countP_cons_of_neg Bool.false_ne_true] at hcount
  omega

theorem of_close {name : Text} {o : Nat} {i : Option Text}
    (h : FitFrom (depth + 1) (.tag ⟨.close, name, o⟩ i :: ts)) : FitFrom depth ts := by
  intro pre hpre
  have hcount := h (_ :: pre) (List.cons_prefix_cons.2 ⟨rfl, hpre⟩)
  rw [List.countP_cons_of_neg Bool.false_ne_true, List.countP_cons_of_pos rfl] at hcount
  omega

theorem of_nested_append (hts : Nested ts) (h : FitFrom depth (ts ++ us)) :
    FitFrom depth us := by
  intro pre hpre
  have hcount := h (ts ++ pre) ((List.prefix_append_right_inj ts).2 hpre)
  rw [List.countP_append, List.countP_append, hts.countP_eq] at hcount
  omega

end Token.FitFrom

/-! ## marks -/

/-- what is left of a token in a tree -/
inductive Mark where
  | text (t : Text)
  | tag (kind : TagKind) (content : Text) (indent : Option Text)
  deriving DecidableEq, Repr

namespace Mark

/-- a mark in front of marks: text joins the text behind it, and empty text vanishes -/
def cons (m : Mark) (ms : List Mark) : List Mark :=
  match m with
  | text t =>
    if t = [] then ms
    else
      match ms with
      | text u :: rest => text (t ++ u) :: rest
      | _ => text t :: ms
  | tag .. => m :: ms

/-- adjacent texts joined into one -/
def join (ms : List Mark) : List Mark := ms.foldr cons []

/-- the name of an inclusion -/
def inclusion? : Mark → Option Text
  | tag .inclusion name _ => some name
  | _ => none

/-- no text is joined across a tag -/
theorem foldr_cons_tag (kind : TagKind) (content : Text) (indent : Option Text)
    (ms rest : List Mark) : ms.foldr cons (tag kind content indent :: rest) =
      join ms ++ tag kind content indent :: rest := by
  induction ms with
  | nil => rfl
  | cons m ms ih =>
    rw [List.foldr_cons, ih]
    show cons m (join ms ++ _) = cons m (join ms) ++ _
    cases m with
    | tag => rfl
    | text t =>
      by_cases ht : t = []
      · simp [cons, ht]
      · rcases join ms with - | ⟨_ | _, ms⟩ <;> simp [cons, ht]

theorem filterMap_inclusion?_join (ms : List Mark) :
    (join ms).filterMap inclusion? = ms.filterMap inclusion? := by
  induction ms with
  | nil => rfl
  | cons m ms ih =>
    rw [List.filterMap_cons, ← ih]
    show (cons m (join ms)).filterMap inclusion? = _
    cases m with
    | tag => rfl
    | text t =>
      by_cases ht : t = []
      · simp [cons, ht, inclusion?]
      · rcases join ms with - | ⟨_ | _, ms⟩ <;> simp only [cons, if_neg ht] <;> rfl

end Mark

namespace Token

/-- comments and delimiter tags leave nothing, and only an inclusion keeps its indentation -/
def marks : Token → List Mark
  | text t => [.text t]
  | tag ⟨.comment, _, _⟩ _ => []
  | tag ⟨.delims, _, _⟩ _ => []
  | tag ⟨.inclusion, name, _⟩ indent => [.tag .inclusion name indent]
  | tag ⟨kind, content, _⟩ _ => [.tag kind content none]

def inclusion? : Token → Option Text
  | tag ⟨.inclusion, name, _⟩ _ => some name
  | _ => none

theorem filterMap_inclusion?_marks (ts : List Token) :
    (ts.flatMap marks).filterMap Mark.inclusion? = ts.filterMap inclusion? := by
  induction ts with
  | nil => rfl
  | cons t ts ih =>
    rw [List.flatMap_cons, List.filterMap_append, ih]
    cases t with
    | text t => rfl
    | tag t indent =>
      obtain ⟨kind, content, offset⟩ := t
      cases kind <;> rfl

end Token

mutual

def Node.marks : Node → List Mark
  | .text t => [.text t]
  | .var name escaped => [.tag (.var escaped) name.toText none]
  | .block name inverted children =>
    .tag (.block inverted) name.toText none ::
      (Tree.marks children ++ [.tag .close name.toText none])
  | .inclusion name indent => [.tag .inclusion name indent]

def Tree.marks : Tree → List Mark
  | [] => []
  | n :: ns => n.marks ++ Tree.marks ns

end

namespace Tree

theorem marks_cons_text (t : Text) (ns : Tree) :
    marks (cons (.text t) ns) = Mark.cons (.text t) (marks ns) := by
  by_cases ht : t = []
  · simp [cons, Mark.cons, ht]
  · rcases ns with - | ⟨_ | _ | _ | _, ns⟩ <;> simp [cons, Mark.cons, marks, Node.marks, ht]

theorem marks_cons_block (name : Text) (inverted : Bool) (children ns : Tree) :
    marks (cons (.block (Name.ofText name) inverted children) ns) =
      .tag (.block inverted) name none ::
        (children.marks ++ .tag .close name none :: ns.marks) := by
  show marks (Node.block (Name.ofText name) inverted children :: ns) = _
  rw [marks, Node.marks, Name.toText_ofText, List.cons_append, List.append_assoc,
    List.singleton_append]

theorem references_eq_filterMap_marks (tree : Tree) :
    tree.references = tree.marks.filterMap Mark.inclusion? := by
  induction tree using Tree.induct with
  | nil => rfl
  | text t ns ih => exact ih
  | var name escaped ns ih => exact ih
  | block name inverted children ns ihc ih =>
    rw [references_cons, Node.references, ihc, ih, marks, Node.marks, List.cons_append,
      List.append_assoc, List.filterMap_cons_none rfl, List.filterMap_append,
      List.singleton_append, List.filterMap_cons_none rfl]
  | inclusion name indent ns ih => exact congrArg (name :: ·) ih

end Tree

/-! ## from nested tokens to a tree -/

/-- the node of a token that is no tag of a block, if it leaves one -/
def Token.node? : Token → Option Node
  | text t => some (.text t)
  | tag ⟨.var escaped, content, _⟩ _ => some (.var (Name.ofText content) escaped)
  | tag ⟨.inclusion, name, _⟩ indent => some (.inclusion name indent)
  | _ => none

theorem Tree.marks_node? {t : Token} (hopens : t.opens = false) (hcloses : t.closes = false)
    (ns : Tree) : marks (t.node?.toList.foldr cons ns) = t.marks.foldr Mark.cons ns.marks := by
  cases t with
  | text t => exact marks_cons_text t ns
  | tag t indent =>
    obtain ⟨kind, content, offset⟩ := t
    cases kind with
    | var escaped =>
      show Mark.tag _ (Name.ofText content).toText none :: _ = Mark.tag _ content none :: _
      rw [Name.toText_ofText]
      rfl
    | block inverted => cases hopens
    | close => cases hcloses
    | inclusion => rfl
    | comment => rfl
    | delims => rfl

namespace Nest

theorem step_flat {t : Token} (hopens : t.opens = false) (hcloses : t.closes = false) (b : Nest) :
    b.step t = .ok ⟨b.stack, t.node?.toList ++ b.current⟩ := by
  cases t with
  | text t => rfl
  | tag t indent =>
    obtain ⟨kind, content, offset⟩ := t
    cases kind with
    | block inverted => cases hopens
    | close => cases hcloses
    | var escaped => rfl
    | inclusion => rfl
    | comment => rfl
    | delims => rfl

/-- nested tokens put nodes on top, the same ones in front of whatever is open; joined with any
tree behind them, the nodes have the marks of the tokens -/
theorem run_nested {ts : List Token} (h : Nested ts) : ∃ nodes : List Node,
    (∀ b : Nest, Token.FitFrom b.stack.length ts →
      b.run ts = .ok ⟨b.stack, nodes ++ b.current⟩) ∧
    ∀ ns, Tree.marks (nodes.reverse.foldr Tree.cons ns) =
      (ts.flatMap Token.marks).foldr Mark.cons ns.marks := by
  induction h with
  | nil => exact ⟨[], fun _ _ => rfl, fun _ => rfl⟩
  | @flat t ts hopens hcloses _ ih =>
    obtain ⟨nodes, hrun, hmarks⟩ := ih
    refine ⟨nodes ++ t.node?.toList, fun b hfit => ?_, fun ns => ?_⟩
    · rw [run_cons (step_flat hopens hcloses b), List.append_assoc]
      exact hrun ⟨b.stack, t.node?.toList ++ b.current⟩ (hfit.of_flat hopens hcloses)
    · have hnode : t.node?.toList.reverse = t.node?.toList := by cases t.node? <;> rfl
      rw [List.reverse_append, hnode, List.foldr_append, Tree.marks_node? hopens hcloses, hmarks,
        List.flatMap_cons, List.foldr_append]
  | @block name inverted o₁ o₂ i₁ i₂ body rest hbody _ ihb ihr =>
    obtain ⟨inner, hrunb, hmarksb⟩ := ihb
    obtain ⟨nodes, hrunr, hmarksr⟩ := ihr
    refine ⟨nodes ++ [.block (Name.ofText name) inverted (Tree.ofReversed inner)],
      fun b hfit => ?_, fun ns => ?_⟩
    · have hinside := hfit.of_block
      have hroom : b.stack.length < maxNesting := hinside.depth_le
      have hafter := (hinside.of_nested_append hbody).of_close
      have hclose := step_close ⟨name, inverted, o₁, b.current⟩ b.stack inner o₂ i₂
      rw [run_cons (step_block hroom name inverted o₁ i₁), run_append,
        hrunb ⟨⟨name, inverted, o₁, b.current⟩ :: b.stack, []⟩ hinside.of_append, List.append_nil]
      show Nest.run _ (_ :: rest) = _
      rw [run_cons hclose, List.append_assoc]
      exact hrunr ⟨b.stack, _ :: b.current⟩ hafter
    · have hchildren : (Tree.ofReversed inner).marks = Mark.join (body.flatMap Token.marks) := by
        rw [Tree.ofReversed_eq_foldr, hmarksb]
        rfl
      have htokens : (Token.tag ⟨.block inverted, name, o₁⟩ i₁ ::
          (body ++ .tag ⟨.close, name, o₂⟩ i₂ :: rest)).flatMap Token.marks =
          .tag (.block inverted) name none :: (body.flatMap Token.marks ++
            .tag .close name none :: rest.flatMap Token.marks) := by
        rw [List.flatMap_cons, List.flatMap_append, List.flatMap_cons]
        rfl
      rw [List.reverse_append, List.reverse_singleton, List.singleton_append, List.foldr_cons,
        Tree.marks_cons_block, hchildren, hmarksr, htokens, List.foldr_cons, List.foldr_append,
        List.foldr_cons]
      show _ = _ :: List.foldr Mark.cons (.tag .close name none :: _) _
      rw [Mark.foldr_cons_tag]

/-! ## from a tree to nested tokens -/

/-- What was read while the blocks of `stack` are open: nested tokens, and for each open block its
tag and nested tokens behind it. -/
inductive Pending : List OpenBlock → List Token → Prop where
  | flat {ts : List Token} : Nested ts → Pending [] ts
  | block {o : OpenBlock} {stack : List OpenBlock} {ts inner : List Token} {i : Option Text} :
      Pending stack ts → stack.length < 512 → Nested inner →
      Pending (o :: stack) (ts ++ .tag ⟨.block o.inverted, o.name, o.offset⟩ i :: inner)

namespace Pending
variable {stack : List OpenBlock} {ts us : List Token}

theorem append (h : Pending stack ts) (hu : Nested us) : Pending stack (ts ++ us) := by
  cases h with
  | flat hts => exact .flat (hts.append hu)
  | block hts hroom hinner =>
    rw [List.append_assoc, List.cons_append]
    exact .block hts hroom (hinner.append hu)

theorem length_le (h : Pending stack ts) : stack.length ≤ 512 := by
  cases h with
  | flat => exact Nat.zero_le _
  | block _ hroom _ => exact hroom

theorem countP_eq (h : Pending stack ts) :
    ts.countP Token.opens = ts.countP Token.closes + stack.length := by
  induction h with
  | flat hts => exact hts.countP_eq
  | block _ _ hinner ih =>
    rw [List.countP_append, List.countP_append, List.countP_cons_of_pos rfl,
      List.countP_cons_of_neg Bool.false_ne_true, hinner.countP_eq, ih, List.length_cons]
    omega

theorem step {b b' : Nest} {t : Token} (h : Pending b.stack ts) (hs : b.step t = .ok b') :
    Pending b'.stack (ts ++ [t]) := by
  cases t with
  | text t =>
    cases hs
    exact h.append (.flat rfl rfl .nil)
  | tag t indent =>
    obtain ⟨kind, content, offset⟩ := t
    cases kind with
    | block inverted =>
      change b.enter content inverted offset = .ok b' at hs
      unfold enter at hs
      split at hs
      · cases hs
      · next hroom =>
        cases hs
        exact .block h (Nat.not_le.1 hroom) .nil
    | close =>
      change b.leave content offset = .ok b' at hs
      unfold leave at hs
      split at hs
      · cases hs
      · next o stack hstack =>
        split at hs
        · next hname =>
          cases hs
          rw [hstack] at h
          cases h with
          | block hts _ hinner =>
            rw [List.append_assoc, List.cons_append, hname]
            exact hts.append (.block hinner .nil)
        · cases hs
    | var | inclusion | comment | delims =>
      cases hs
      exact h.append (.flat rfl rfl .nil)

theorem run {b b' : Nest} (h : Pending b.stack ts) (hr : b.run us = .ok b') :
    Pending b'.stack (ts ++ us) := by
  induction us generalizing b ts with
  | nil =>
    cases hr
    rwa [List.append_nil]
  | cons t us ih =>
    rw [Nest.run] at hr
    split at hr
    · cases hr
    · next b₁ hs =>
      have hpending := ih (h.step hs) hr
      rwa [List.append_assoc] at hpending

end Pending

theorem pending_of_run {ts : List Token} {b : Nest} (h : Nest.empty.run ts = .ok b) :
    Pending b.stack ts := by
  have hstart : Pending Nest.empty.stack [] := .flat .nil
  exact hstart.run h

/-- tokens that could be read so far never had too many blocks open -/
theorem fitFrom_of_run {ts : List Token} {b : Nest} (h : Nest.empty.run ts = .ok b) :
    Token.FitFrom 0 ts := by
  rintro pre ⟨post, rfl⟩
  rw [run_append] at h
  cases hpre : Nest.empty.run pre with
  | error f =>
    rw [hpre] at h
    cases h
  | ok b₁ =>
    have hcount := (pending_of_run hpre).countP_eq
    have hlength := (pending_of_run hpre).length_le
    omega

end Nest

namespace Tree

theorem nested_of_ofTokens {ts : List Token} {tree : Tree} (h : ofTokens ts = .ok tree) :
    Nested ts ∧ Token.FitFrom 0 ts := by
  obtain ⟨nodes, hrun, -⟩ := exists_run_of_ofTokens h
  have hpending : Nest.Pending [] ts := Nest.pending_of_run hrun
  cases hpending with
  | flat hts => exact ⟨hts, Nest.fitFrom_of_run hrun⟩

/-- **Tokens become a tree exactly when their blocks are nested.**  Each block is closed under its
own text, and never more than 512 are open.  The tree, in reading order, then shows the tokens
without comments and delimiter tags, adjacent texts joined, and it refers to the included templates
in their order. -/
theorem ofTokens_nested (ts : List Token) :
    ((∃ tree, ofTokens ts = .ok tree) ↔
      Nested ts ∧ ∀ pre, pre <+: ts →
        pre.countP Token.opens ≤ pre.countP Token.closes + 512) ∧
    ∀ tree, ofTokens ts = .ok tree →
      tree.marks = Mark.join (ts.flatMap Token.marks) ∧
      tree.references = ts.filterMap Token.inclusion? := by
  have hfit : Token.FitFrom 0 ts ↔ ∀ pre, pre <+: ts →
      pre.countP Token.opens ≤ pre.countP Token.closes + 512 := by
    simp only [Token.FitFrom, Nat.zero_add]
  have hbuilt : Nested ts → Token.FitFrom 0 ts → ∃ tree, ofTokens ts = .ok tree ∧
      tree.marks = Mark.join (ts.flatMap Token.marks) := by
    intro hnested hroom
    obtain ⟨nodes, hrun, hmarks⟩ := Nest.run_nested hnested
    refine ⟨ofReversed nodes, ?_, ?_⟩
    · rw [ofTokens, hrun Nest.empty hroom]
      show Except.ok (ofReversed (nodes ++ [])) = _
      rw [List.append_nil]
    · rw [ofReversed_eq_foldr, hmarks]
      rfl
  rw [← hfit]
  refine ⟨⟨fun ⟨tree, h⟩ => nested_of_ofTokens h, fun ⟨hnested, hroom⟩ => ?_⟩, fun tree h => ?_⟩
  · obtain ⟨tree, htree, -⟩ := hbuilt hnested hroom
    exact ⟨tree, htree⟩
  · obtain ⟨hnested, hroom⟩ := nested_of_ofTokens h
    obtain ⟨tree', htree, hmarks⟩ := hbuilt hnested hroom
    obtain rfl : tree = tree' := Except.ok.inj (h.symm.trans htree)
    refine ⟨hmarks, ?_⟩
    rw [references_eq_filterMap_marks, hmarks, Mark.filterMap_inclusion?_join,
      Token.filterMap_inclusion?_marks]

-- a block in a block of the same name, a comment between two texts, and an inclusion twice
def twoBlocks : List Token :=
  [.tag ⟨.inclusion, ['p'], 0⟩ (some [' ']), .tag ⟨.block false, "a.b".toList, 9⟩ (some [' ']),
    .text ['x'], .tag ⟨.comment, [], 20⟩ none, .text ['\n'],
    .tag ⟨.block true, "a.b".toList, 30⟩ none, .tag ⟨.inclusion, ['p'], 40⟩ none,
    .tag ⟨.close, "a.b".toList, 50⟩ none, .tag ⟨.close, "a.b".toList, 60⟩ none, .text ['y']]

theorem ofTokens_nested_twoBlocks : ∃ tree, ofTokens twoBlocks = .ok tree ∧ Nested twoBlocks ∧
    tree.marks = [.tag .inclusion ['p'] (some [' ']), .tag (.block false) "a.b".toList none,
      .text ['x', '\n'], .tag (.block true) "a.b".toList none, .tag .inclusion ['p'] none,
      .tag .close "a.b".toList none, .tag .close "a.b".toList none, .text ['y']] ∧
    tree.references = [['p'], ['p']] := by
  obtain ⟨hiff, htree⟩ := ofTokens_nested twoBlocks
  have h : ∃ tree, ofTokens twoBlocks = .ok tree := by
    refine ⟨[.inclusion ['p'] (some [' ']), .block (.dotted ['a'] [['b']]) false
      [.text ['x', '\n'], .block (.dotted ['a'] [['b']]) true [.inclusion ['p'] none]],
      .text ['y']], ?_⟩
    cbv
  obtain ⟨tree, ht⟩ := h
  obtain ⟨hmarks, hreferences⟩ := htree tree ht
  exact ⟨tree, ht, (hiff.1 ⟨tree, ht⟩).1, hmarks, hreferences⟩

end Tree
end Mustache
