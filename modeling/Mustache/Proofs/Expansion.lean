import Mathlib.Data.List.Basic
import Mustache.PartialTable
import Mustache.Proofs.Simulation

/-!
# Inclusion as expansion

An included template is rendered in the frames at hand, each time its tag is met.  Here this is
shown to be the same as putting its nodes in the place of the tag once and for all, as long as
nothing is indented and no chain of inclusions is longer than allowed.

* `Chain`              names that lead from a tree to included trees, one inside the other
* `Shallow`            no chain is longer than this; it can be decided
* `Expands`            a tree with all inclusions replaced, at every level
* `Tree.Unindented`    no inclusion is indented
* `Rendering.Succeeds` a step that never fails
* `render_expansion`   a tree and its expansion are rendered alike
-/

namespace Mustache

variable {partials : Partials}

/-! ## chains of inclusions -/

/-- Names from the tree inwards: the tree refers to the first one, the template of each refers to
the next one, and all of them have templates. -/
inductive Chain (partials : Partials) : Tree → List Text → Prop where
  | nil {t : Tree} : Chain partials t []
  | cons {t u : Tree} {name : Text} {names : List Text} :
      name ∈ t.references → partials name = some u → Chain partials u names →
      Chain partials t (name :: names)

theorem Chain.mono {t t' : Tree} {names : List Text} (h : Chain partials t names)
    (hsub : t.references ⊆ t'.references) : Chain partials t' names := by
  cases h with
  | nil => exact .nil
  | cons hmem hu hrest => exact .cons (hsub hmem) hu hrest

/-- no chain from the tree is longer than `levels` -/
def Shallow (partials : Partials) (levels : Nat) (t : Tree) : Prop :=
  ∀ names, Chain partials t names → names.length ≤ levels

namespace Shallow
variable {levels : Nat} {t t' : Tree}

theorem mono (h : Shallow partials levels t') (hsub : t.references ⊆ t'.references) :
    Shallow partials levels t := fun names hchain => h names (hchain.mono hsub)

theorem zero_iff : Shallow partials 0 t ↔ ∀ name ∈ t.references, partials name = none := by
  constructor
  · intro h name hmem
    cases hu : partials name with
    | none => rfl
    | some u => exact absurd (h [name] (.cons hmem hu .nil)) (Nat.not_succ_le_zero 0)
  · intro h names hchain
    cases hchain with
    | nil => exact Nat.le_refl 0
    | cons hmem hu _ =>
      rw [h _ hmem] at hu
      cases hu

theorem succ_iff : Shallow partials (levels + 1) t ↔
    ∀ name ∈ t.references, ∀ u, partials name = some u → Shallow partials levels u := by
  constructor
  · intro h name hmem u hu names hchain
    exact Nat.le_of_succ_le_succ (h (name :: names) (.cons hmem hu hchain))
  · intro h names hchain
    cases hchain with
    | nil => exact Nat.zero_le _
    | cons hmem hu hrest => exact Nat.succ_le_succ (h _ hmem _ hu _ hrest)

theorem tail {n : Node} {ns : Tree} (h : Shallow partials levels (n :: ns)) :
    Shallow partials levels ns := by
  refine h.mono ?_
  rw [Tree.references_cons]
  exact List.subset_append_right _ _

theorem children {name : Name} {inverted : Bool} {children ns : Tree}
    (h : Shallow partials levels (.block name inverted children :: ns)) :
    Shallow partials levels children := by
  refine h.mono ?_
  rw [Tree.references_cons, Node.references]
  exact List.subset_append_left _ _

/-- a template that is included takes up a level -/
theorem exists_succ {name : Text} {indent : Option Text} {u ns : Tree}
    (h : Shallow partials levels (.inclusion name indent :: ns)) (hu : partials name = some u) :
    ∃ l, levels = l + 1 ∧ Shallow partials l u := by
  have hmem : name ∈ Tree.references (.inclusion name indent :: ns) := by
    rw [Tree.references_cons, Node.references]
    exact List.mem_cons_self
  cases levels with
  | zero =>
    rw [zero_iff.1 h name hmem] at hu
    cases hu
  | succ l => exact ⟨l, rfl, succ_iff.1 h name hmem u hu⟩

end Shallow

instance decidableShallow (partials : Partials) :
    (levels : Nat) → (t : Tree) → Decidable (Shallow partials levels t)
  | 0, t => decidable_of_iff (∀ name ∈ t.references, (partials name).isNone = true) <| by
    simp only [Option.isNone_iff_eq_none, Shallow.zero_iff]
  | levels + 1, t =>
    have := decidableShallow partials levels
    decidable_of_iff
      (∀ name ∈ t.references, ∀ u ∈ (partials name).toList, Shallow partials levels u) <| by
    simp only [Option.mem_toList, Shallow.succ_iff]

/-! ## expansion -/

/-- Every inclusion is replaced by the expansion of its template, also inside blocks, and by nothing
if it has none. -/
inductive Expands (partials : Partials) : Tree → Tree → Prop where
  | nil : Expands partials [] []
  | text {t : Text} {ns ns' : Tree} :
      Expands partials ns ns' → Expands partials (.text t :: ns) (.text t :: ns')
  | var {name : Name} {escaped : Bool} {ns ns' : Tree} :
      Expands partials ns ns' →
      Expands partials (.var name escaped :: ns) (.var name escaped :: ns')
  | block {name : Name} {inverted : Bool} {children children' ns ns' : Tree} :
      Expands partials children children' → Expands partials ns ns' →
      Expands partials (.block name inverted children :: ns)
        (.block name inverted children' :: ns')
  | known {name : Text} {indent : Option Text} {u u' ns ns' : Tree} :
      partials name = some u → Expands partials u u' → Expands partials ns ns' →
      Expands partials (.inclusion name indent :: ns) (u' ++ ns')
  | unknown {name : Text} {indent : Option Text} {ns ns' : Tree} :
      partials name = none → Expands partials ns ns' →
      Expands partials (.inclusion name indent :: ns) ns'

theorem Expands.eq {t a b : Tree} (ha : Expands partials t a) (hb : Expands partials t b) :
    a = b := by
  induction ha generalizing b with
  | nil =>
    cases hb
    rfl
  | text _ ih =>
    cases hb with
    | text hns => rw [ih hns]
  | var _ ih =>
    cases hb with
    | var hns => rw [ih hns]
  | block _ _ ihc ih =>
    cases hb with
    | block hchildren hns => rw [ihc hchildren, ih hns]
  | known hu _ _ ihu ih =>
    cases hb with
    | known hu' hexp hns =>
      obtain rfl := Option.some.inj (hu.symm.trans hu')
      rw [ihu hexp, ih hns]
    | unknown hnone _ =>
      rw [hnone] at hu
      cases hu
  | unknown hnone _ ih =>
    cases hb with
    | known hu _ _ =>
      rw [hnone] at hu
      cases hu
    | unknown _ hns => exact ih hns

theorem exists_expands {levels : Nat} {t : Tree} (h : Shallow partials levels t) :
    ∃ t', Expands partials t t' := by
  -- outside on the levels left, since a template is no part of the tree that includes it
  induction levels using Nat.strongRecOn generalizing t with
  | ind levels ihl =>
    induction t using Tree.induct with
    | nil => exact ⟨[], .nil⟩
    | text s ns ih =>
      obtain ⟨ns', hns⟩ := ih h.tail
      exact ⟨_, .text hns⟩
    | var name escaped ns ih =>
      obtain ⟨ns', hns⟩ := ih h.tail
      exact ⟨_, .var hns⟩
    | block name inverted children ns ihc ih =>
      obtain ⟨children', hchildren⟩ := ihc h.children
      obtain ⟨ns', hns⟩ := ih h.tail
      exact ⟨_, .block hchildren hns⟩
    | inclusion name indent ns ih =>
      obtain ⟨ns', hns⟩ := ih h.tail
      cases hu : partials name with
      | none => exact ⟨_, .unknown hu hns⟩
      | some u =>
        obtain ⟨l, rfl, hl⟩ := h.exists_succ hu
        obtain ⟨u', hexp⟩ := ihl l (Nat.lt_succ_self l) hl
        exact ⟨_, .known hu hexp hns⟩

/-! ## rendering the expansion -/

mutual

def Node.Unindented : Node → Prop
  | .text _ => True
  | .var _ _ => True
  | .block _ _ children => Tree.Unindented children
  | .inclusion _ indent => indent = none

/-- no inclusion in the tree is indented -/
def Tree.Unindented : Tree → Prop
  | [] => True
  | n :: ns => n.Unindented ∧ Tree.Unindented ns

end

mutual

def Node.decidableUnindented : (n : Node) → Decidable n.Unindented
  | .text _ => inferInstanceAs (Decidable True)
  | .var _ _ => inferInstanceAs (Decidable True)
  | .block _ _ children => Tree.decidableUnindented children
  | .inclusion _ indent => inferInstanceAs (Decidable (indent = none))

def Tree.decidableUnindented : (t : Tree) → Decidable t.Unindented
  | [] => inferInstanceAs (Decidable True)
  | n :: ns =>
    have := n.decidableUnindented
    have := Tree.decidableUnindented ns
    inferInstanceAs (Decidable (n.Unindented ∧ Tree.Unindented ns))

end

instance (t : Tree) : Decidable t.Unindented := t.decidableUnindented

/-- on any canvas, so within any frames, a tree and its expansion do the same -/
theorem Expands.render_eq {t t' : Tree} {levels : Nat} (h : Expands partials t t')
    (hlevels : Shallow partials levels t) (hplain : t.Unindented)
    (htable : ∀ name u, partials name = some u → u.Unindented) :
    Tree.render (inclusion partials levels) t = Tree.render (fun _ _ => .done) t' := by
  induction h generalizing levels with
  | nil => rfl
  | text _ ih =>
    rw [Tree.render_cons, Tree.render_cons, ih hlevels.tail hplain.2]
    rfl
  | var _ ih =>
    rw [Tree.render_cons, Tree.render_cons, ih hlevels.tail hplain.2]
    rfl
  | block _ _ ihc ih =>
    rw [Tree.render_cons, Tree.render_cons, ih hlevels.tail hplain.2, Node.render, Node.render,
      ihc hlevels.children hplain.1]
  | known hu _ _ ihu ih =>
    obtain ⟨l, rfl, hl⟩ := hlevels.exists_succ hu
    obtain ⟨rfl, hns⟩ := hplain
    rw [Tree.render_cons, Node.render, inclusion_succ_of_eq_some hu, ihu hl (htable _ _ hu),
      ih hlevels.tail hns, Tree.render_append]
  | unknown hnone _ ih =>
    rw [Tree.render_cons, Node.render, inclusion_of_eq_none hnone, Rendering.done_andThen,
      ih hlevels.tail hplain.2]

namespace Rendering

/-- the step does not fail on any canvas -/
def Succeeds (a : Rendering) : Prop := ∀ c, (a c).2 = none

theorem succeeds_done : done.Succeeds := fun _ => rfl

theorem succeeds_iff {a : Rendering} : a.Succeeds ↔ a.FailsOnly fun _ => False :=
  forall_congr' fun _ => Option.eq_none_iff_forall_ne_some

end Rendering

/-- only an inclusion can fail -/
theorem Tree.render_succeeds {incl : Text → Option Text → Rendering}
    (h : ∀ name indent, (incl name indent).Succeeds) (t : Tree) :
    (Tree.render incl t).Succeeds := by
  rw [Rendering.succeeds_iff]
  exact render_failsOnly fun name _ indent => Rendering.succeeds_iff.1 (h name indent)

theorem inclusion_none (levels : Nat) : inclusion (fun _ => none) levels = fun _ _ => .done := by
  funext name indent
  exact inclusion_of_eq_none rfl levels indent

/-- **An inclusion stands for the nodes of its template.**  If nothing is indented and no chain of
inclusions is longer than allowed, a tree has exactly one expansion, and without any templates the
expansion is rendered as the tree is with them: both give the same text. -/
theorem render_expansion {maxDepth : Nat} {t : Tree} (hplain : t.Unindented)
    (htable : ∀ name u, partials name = some u → u.Unindented)
    (hchain : ∀ names, Chain partials t names → names.length ≤ maxDepth) (data : Value) :
    ∃ t', Expands partials t t' ∧ (∀ t'', Expands partials t t'' → t'' = t') ∧
      ∃ out, render partials maxDepth t data = .ok out ∧
        ∀ d, render (fun _ => none) d t' data = .ok out := by
  obtain ⟨t', hexp⟩ := exists_expands hchain
  have heq := hexp.render_eq hchain hplain htable
  have hdone := Tree.render_succeeds (fun _ _ => Rendering.succeeds_done) t' (.ofData data)
  rcases hout : Tree.render (fun _ _ => .done) t' (.ofData data) with ⟨c, _ | name⟩
  · refine ⟨t', hexp, fun t'' h => h.eq hexp, c.text, ?_, fun d => ?_⟩
    · rw [render, heq, hout]
    · rw [render, inclusion_none, hout]
  · rw [hout] at hdone
    cases hdone

/-- a row around a cell that shows the value at hand -/
def rows : PartialTable :=
  ⟨[⟨"row".toList, "<{{> cell}}>".toList,
      [.text "<".toList, .inclusion "cell".toList none, .text ">".toList]⟩,
    ⟨"cell".toList, "{{.}}".toList, [.var .implicit true]⟩]⟩

/-- a row for each item, and something that is in no table -/
def listing : Tree :=
  [.block (.dotted "items".toList []) false [.inclusion "row".toList none],
    .inclusion "foot".toList none]

def twoItems : Value := .map [("items".toList, .list [.string "x".toList, .string "y".toList])]

theorem render_expansion_listing :
    listing.Unindented ∧ (∀ name u, rows.tree? name = some u → u.Unindented) ∧
    (∀ names, Chain rows.tree? listing names → names.length ≤ 2) ∧
    render rows.tree? 2 listing twoItems = .ok "<x><y>".toList ∧
    ∃ t', Expands rows.tree? listing t' ∧ (∀ t'', Expands rows.tree? listing t'' → t'' = t') ∧
      ∀ d, render (fun _ => none) d t' twoItems = .ok "<x><y>".toList := by
  have hplain : listing.Unindented := by decide
  have htable : ∀ name u, rows.tree? name = some u → u.Unindented := by
    intro name u hu
    obtain ⟨p, hmem, -, rfl⟩ := PartialTable.exists_of_tree?_eq_some hu
    have hall : ∀ p ∈ rows.partials, p.tree.Unindented := by decide
    exact hall p hmem
  have hchain : Shallow rows.tree? 2 listing := by decide
  have htext : render rows.tree? 2 listing twoItems = .ok "<x><y>".toList := by rfl
  obtain ⟨t', hexp, honly, out, hout, hall⟩ := render_expansion hplain htable hchain twoItems
  obtain rfl := Except.ok.inj (htext.symm.trans hout)
  exact ⟨hplain, htable, hchain, htext, t', hexp, honly, hall⟩

end Mustache
