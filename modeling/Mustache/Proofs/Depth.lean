import Mathlib.Data.List.Basic
import Mustache.PartialTable
import Mustache.Proofs.Simulation

/-!
# The depth of inclusions

A bound on the depth of inclusions can stop a rendering, and does nothing else: a rendering that
comes to its end under one bound runs the same way under every higher one.

* `Rendering.ExtendedBy`      a step that does the same as another one wherever that one succeeds
* `inclusion_extendedBy`      an inclusion with more levels left extends one with fewer
* `render_ok_of_le`           a higher bound keeps every text
-/

namespace Mustache

namespace Rendering

/-- wherever `a` succeeds, `b` has the same outcome -/
def ExtendedBy (a b : Rendering) : Prop := Related (fun _ o o' => o.2 = none → o' = o) a b

variable {a b : Rendering}

theorem ExtendedBy.refl (a : Rendering) : a.ExtendedBy a := fun _ _ => rfl

theorem fail_extendedBy (name : Text) (b : Rendering) : (fail name).ExtendedBy b :=
  fun _ h => nomatch h

theorem compatible_extendedBy : Compatible (fun _ o o' => o.2 = none → o' = o) := by
  constructor
  case done => exact ExtendedBy.refl done
  case andThen =>
    intro a a' b b' ha hb c h
    rcases hc : a c with ⟨c', _ | name⟩
    · have hc' : a' c = (c', none) := by rw [ha c (by rw [hc]), hc]
      rw [andThen_of_ok hc] at h ⊢
      rw [andThen_of_ok hc']
      exact hb c' h
    · rw [andThen_of_fail hc] at h
      cases h
  case within =>
    intro a a' v ha c h
    have hac := ha { c with frames := c.frames.push v } h
    rw [within, within, hac]

theorem ExtendedBy.indented (h : a.ExtendedBy b) (indent : Text) :
    (Rendering.indented indent a).ExtendedBy (Rendering.indented indent b) := by
  intro c hsucc
  rcases hc : a { c with pieces := [] } with ⟨c', _ | name⟩
  · have hc' : b { c with pieces := [] } = (c', none) := by rw [h _ (by rw [hc]), hc]
    rw [indented_of_ok hc, indented_of_ok hc']
  · rw [indented_of_fail hc] at hsucc
    cases hsucc

end Rendering

open Rendering

/-- a tree does the same with inclusions that do more -/
theorem Tree.render_extendedBy {incl incl' : Text → Option Text → Rendering}
    (h : ∀ name indent, (incl name indent).ExtendedBy (incl' name indent)) (t : Tree) :
    (Tree.render incl t).ExtendedBy (Tree.render incl' t) :=
  render_related (S := fun _ => True) compatible_extendedBy
    (fun s _ => ExtendedBy.refl (write s))
    (fun name escaped _ => ExtendedBy.refl (var name escaped))
    (fun name indent _ => h name indent) (fun _ _ => trivial)

theorem inclusion_extendedBy (partials : Partials) {levels levels' : Nat}
    (hle : levels ≤ levels') (name : Text) (indent : Option Text) :
    (inclusion partials levels name indent).ExtendedBy
      (inclusion partials levels' name indent) := by
  refine inclusion_induct (R := fun levels name indent a => ∀ levels', levels ≤ levels' →
    a.ExtendedBy (inclusion partials levels' name indent)) ?unknown ?tooDeep ?plain ?indented
    levels name indent levels' hle
  case unknown =>
    intro levels name indent hu levels' _
    rw [inclusion_of_eq_none hu]
    exact ExtendedBy.refl done
  case tooDeep => exact fun name indent u _ levels' _ => fail_extendedBy name _
  case plain =>
    intro levels name u hu ih levels' hle
    -- the higher bound has a level left too, so both come to the template's own inclusions
    obtain ⟨more, rfl⟩ := Nat.exists_eq_add_of_lt hle
    rw [inclusion_succ_of_eq_some hu]
    exact Tree.render_extendedBy (fun name indent => ih name indent _ (Nat.le_add_right ..)) u
  case indented =>
    intro levels name i u hu ih levels' hle
    obtain ⟨more, rfl⟩ := Nat.exists_eq_add_of_lt hle
    rw [inclusion_succ_some_of_eq_some hu]
    exact (Tree.render_extendedBy
      (fun name indent => ih name indent _ (Nat.le_add_right ..)) u).indented i

/-- **A higher bound keeps every text.**  What a tree renders under one bound on the depth of
inclusions, it renders under every higher one; so a higher bound adds no failure. -/
theorem render_ok_of_le {partials : Partials} {t : Tree} {data : Value} {out : Text}
    {maxDepth maxDepth' : Nat} (hle : maxDepth ≤ maxDepth')
    (h : render partials maxDepth t data = .ok out) :
    render partials maxDepth' t data = .ok out := by
  obtain ⟨c, hc, rfl⟩ := render_eq_ok_iff.1 h
  have hext := Tree.render_extendedBy (inclusion_extendedBy partials hle) t (.ofData data)
  rw [hc] at hext
  exact render_eq_ok_iff.2 ⟨c, hext rfl, rfl⟩

/-- a template that includes itself, once for each child -/
def family : PartialTable :=
  ⟨[⟨"node".toList, "{{name}}({{#c}}{{> node}}{{/c}})".toList,
    [.var (.dotted "name".toList []) true, .text "(".toList,
      .block (.dotted "c".toList []) false [.inclusion "node".toList none],
      .text ")".toList]⟩]⟩

def person (name : String) (children : List Value) : Value :=
  .map [("name".toList, .string name.toList), ("c".toList, .list children)]

/-- three generations -/
def ancestor : Value := person "root" [person "a" [person "a1" []], person "b" []]

-- three levels are enough for three generations, and two are not
theorem render_ok_of_le_family :
    render family.tree? 2 [.inclusion "node".toList none] ancestor =
      .error ⟨"node".toList, 2⟩ ∧
    render family.tree? 3 [.inclusion "node".toList none] ancestor =
      .ok "root(a(a1())b())".toList ∧ 3 ≤ 50 ∧
    render family.tree? 50 [.inclusion "node".toList none] ancestor =
      .ok "root(a(a1())b())".toList := by
  have hthree : render family.tree? 3 [.inclusion "node".toList none] ancestor =
      .ok "root(a(a1())b())".toList := by rfl
  have hle : 3 ≤ 50 := by decide
  exact ⟨by rfl, hthree, hle, render_ok_of_le hle hthree⟩

end Mustache
