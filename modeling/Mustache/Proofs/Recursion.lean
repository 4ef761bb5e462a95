import Mathlib.Logic.Relation
import Mustache.Proofs.Expansion
import Mustache.Proofs.Outcome

/-!
# Inclusions nested too deeply

A rendering fails only where inclusions are nested deeper than allowed, and then the templates are
nested like that: the tree refers to a first one, and each one to the next.  If no template comes
back to itself, a chain has no name twice, so a table with few names renders whatever the data is.
An inclusion outside every block is met on any data: a cycle of such inclusions always fails.

* `inclusion_failsOnly`        an inclusion fails only at the end of a chain
* `Refers`                     the template of a name refers to another name
* `render_failure`             a failure shows a chain, and without cycles there is none that long
* `Rendering.Fails`            a step that fails on every canvas
* `Unguarded`                  like `Refers`, but by an inclusion outside every block
* `render_unguarded_cycle`     a cycle of unguarded inclusions always fails
-/

namespace Mustache

variable {partials : Partials} {t : Tree}

/-! ## where a rendering can fail -/

/-- With so many levels left an inclusion fails only at the end of a chain: the names that use up
the levels, and the one for which none is left. -/
theorem inclusion_failsOnly (levels : Nat) (name : Text) (indent : Option Text)
    (hname : name ∈ t.references) : (inclusion partials levels name indent).FailsOnly fun bad =>
      ∃ names, names.length = levels ∧ Chain partials t (names ++ [bad]) := by
  refine inclusion_induct (R := fun levels name _ a => ∀ t : Tree, name ∈ t.references →
    a.FailsOnly fun bad => ∃ names, names.length = levels ∧ Chain partials t (names ++ [bad]))
    ?unknown ?tooDeep ?plain ?indented levels name indent t hname
  case unknown => exact fun _ _ _ _ _ _ => Rendering.failsOnly_done
  case tooDeep =>
    intro name _ u hu t hname
    exact Rendering.failsOnly_fail ⟨[], rfl, .cons hname hu .nil⟩
  -- what fails inside the template is the end of a chain from there, one name shorter
  case plain =>
    intro levels name u hu ih t hname
    have hinside := Tree.render_failsOnly fun next hnext indent => ih next indent u hnext
    refine hinside.mono ?_
    rintro bad ⟨names, hlength, hchain⟩
    exact ⟨name :: names, congrArg (· + 1) hlength, .cons hname hu hchain⟩
  case indented =>
    intro levels name i u hu ih t hname
    have hinside := Tree.render_failsOnly fun next hnext indent => ih next indent u hnext
    refine (hinside.indented i).mono ?_
    rintro bad ⟨names, hlength, hchain⟩
    exact ⟨name :: names, congrArg (· + 1) hlength, .cons hname hu hchain⟩

theorem chain_of_render_eq_error {maxDepth : Nat} {data : Value} {e : RecursionError}
    (h : render partials maxDepth t data = .error e) : e.maxDepth = maxDepth ∧
      ∃ names, names.length = maxDepth ∧ Chain partials t (names ++ [e.name]) := by
  have hfails : (Tree.render (inclusion partials maxDepth) t).FailsOnly fun bad =>
      ∃ names, names.length = maxDepth ∧ Chain partials t (names ++ [bad]) :=
    Tree.render_failsOnly fun name hname indent => inclusion_failsOnly maxDepth name indent hname
  rw [render] at h
  rcases hout : Tree.render (inclusion partials maxDepth) t (.ofData data) with ⟨c, _ | bad⟩
  · rw [hout] at h
    cases h
  · rw [hout] at h
    obtain rfl := Except.error.inj h
    exact ⟨rfl, hfails (.ofData data) bad (by rw [hout])⟩

/-! ## chains without cycles -/

/-- the template of the name refers to the next one -/
def Refers (partials : Partials) (name next : Text) : Prop :=
  ∃ u, partials name = some u ∧ next ∈ u.references

namespace Chain

/-- the templates of a chain are there, and a tree needs them all -/
theorem reached {u : Tree} {names : List Text} (h : Chain partials u names)
    (hu : ∀ name ∈ u.references, Reached partials t name) :
    ∀ name ∈ names, Reached partials t name ∧ partials name ≠ none := by
  induction h with
  | nil => exact fun name hname => absurd hname List.not_mem_nil
  | @cons u v first rest hfirst hv _ ih =>
    have hreached := hu first hfirst
    have hrest := ih fun next hnext => .step hreached hv hnext
    rw [List.forall_mem_cons]
    refine ⟨⟨hreached, ?_⟩, hrest⟩
    rw [hv]
    exact Option.some_ne_none v

/-- every name of a chain is referred to by the ones before it, directly or through others -/
theorem transGen {name : Text} {u : Tree} {names : List Text} (h : Chain partials u names)
    (hu : partials name = some u) :
    ∀ next ∈ names, Relation.TransGen (Refers partials) name next := by
  induction h generalizing name with
  | nil => exact fun next hnext => absurd hnext List.not_mem_nil
  | @cons u v first rest hfirst hv _ ih =>
    have hstep : Refers partials name first := ⟨u, hu, hfirst⟩
    rw [List.forall_mem_cons]
    exact ⟨.single hstep, fun next hnext => .head hstep (ih hv next hnext)⟩

theorem nodup {u : Tree} {names : List Text} (h : Chain partials u names)
    (hacyclic : ∀ name ∈ names, ¬ Relation.TransGen (Refers partials) name name) :
    names.Nodup := by
  induction h with
  | nil => exact List.nodup_nil
  | @cons u v first rest hfirst hv hrest ih =>
    rw [List.forall_mem_cons] at hacyclic
    refine List.nodup_cons.2 ⟨fun hmem => ?_, ih hacyclic.2⟩
    exact hacyclic.1 (hrest.transGen hv first hmem)

end Chain

/-- **A failure shows templates nested too deeply.**  The failure tells the bound, and there is a
chain with one name more than the bound, from the tree to the template it names.  So there is no
failure, whatever the data is, if no template that the tree needs comes back to itself and there
are no more of them than the bound. -/
theorem render_failure (partials : Partials) (maxDepth : Nat) (t : Tree) :
    (∀ data e, render partials maxDepth t data = .error e → e.maxDepth = maxDepth ∧
      ∃ names, names.length = maxDepth ∧ Chain partials t (names ++ [e.name])) ∧
    ((∀ name, Reached partials t name → ¬ Relation.TransGen (Refers partials) name name) →
      {name | Reached partials t name ∧ partials name ≠ none}.encard ≤ maxDepth →
      ∀ data, ∃ out, render partials maxDepth t data = .ok out) := by
  refine ⟨fun data e he => chain_of_render_eq_error he, fun hacyclic hfew data => ?_⟩
  cases hrender : render partials maxDepth t data with
  | ok out => exact ⟨out, rfl⟩
  | error e =>
    exfalso
    obtain ⟨-, names, hlength, hchain⟩ := chain_of_render_eq_error hrender
    have hreached := hchain.reached (t := t) fun name hname => .root hname
    have hnodup := hchain.nodup fun name hname => hacyclic name (hreached name hname).1
    -- a chain without repetition has at most as many names as there are
    have hcard : {name | name ∈ names ++ [e.name]}.encard ≤ maxDepth :=
      (Set.encard_le_encard hreached).trans hfew
    rw [encard_setOf_mem hnodup, List.length_append, hlength, Nat.cast_le] at hcard
    exact Nat.not_succ_le_self maxDepth hcard

/-- two templates in turn, the second one only while there is more -/
def pages : PartialTable :=
  ⟨[⟨"page".toList, "p{{> list}}".toList, [.text ['p'], .inclusion "list".toList none]⟩,
    ⟨"list".toList, "{{#m}}{{> page}}{{/m}}".toList,
      [.block (.dotted ['m'] []) false [.inclusion "page".toList none]]⟩]⟩

def moreAlways : Value := .map [(['m'], .bool true)]

theorem refers_rows {name next : Text} (h : Refers rows.tree? name next) :
    name = "row".toList ∧ next = "cell".toList := by
  have hrows : ∀ p ∈ rows.partials, ∀ next ∈ p.tree.references,
      p.name = "row".toList ∧ next = "cell".toList := by decide
  obtain ⟨u, hu, hnext⟩ := h
  obtain ⟨p, hp, rfl, rfl⟩ := PartialTable.exists_of_tree?_eq_some hu
  exact hrows p hp next hnext

theorem transGen_refers_rows {name next : Text}
    (h : Relation.TransGen (Refers rows.tree?) name next) :
    name = "row".toList ∧ next = "cell".toList := by
  induction h with
  | single h => exact refers_rows h
  | tail _ h ih => exact ⟨ih.1, (refers_rows h).2⟩

-- there is always more, since the data stays below all frames; the rows have no cycle
theorem render_failure_pages :
    render pages.tree? 3 [.inclusion "page".toList none] moreAlways =
      .error ⟨"list".toList, 3⟩ ∧
    (∃ names, names.length = 3 ∧
      Chain pages.tree? [.inclusion "page".toList none] (names ++ ["list".toList])) ∧
    (∀ name, Reached rows.tree? listing name →
      ¬ Relation.TransGen (Refers rows.tree?) name name) ∧
    {name | Reached rows.tree? listing name ∧ rows.tree? name ≠ none}.encard ≤ (2 : Nat) ∧
    ∀ data, ∃ out, render rows.tree? 2 listing data = .ok out := by
  have herror : render pages.tree? 3 [.inclusion "page".toList none] moreAlways =
      .error ⟨"list".toList, 3⟩ := by rfl
  obtain ⟨-, hchain⟩ := (render_failure pages.tree? 3 _).1 _ _ herror
  have hacyclic : ∀ name, Reached rows.tree? listing name →
      ¬ Relation.TransGen (Refers rows.tree?) name name := by
    intro name _ hcycle
    obtain ⟨rfl, hcell⟩ := transGen_refers_rows hcycle
    revert hcell
    decide
  have hfew : {name | Reached rows.tree? listing name ∧ rows.tree? name ≠ none}.encard ≤
      (2 : Nat) := by
    have hnames : rows.names.Nodup := by decide
    refine (Set.encard_le_encard ?_).trans (encard_setOf_mem hnames).le
    rintro name ⟨-, hname⟩
    by_contra hnot
    exact hname (by rw [PartialTable.tree?, PartialTable.find?_eq_none_iff.2 hnot]; rfl)
  exact ⟨herror, hchain, hacyclic, hfew, (render_failure rows.tree? 2 listing).2 hacyclic hfew⟩

/-! ## cycles that no block guards -/

namespace Rendering

/-- the step fails on every canvas -/
def Fails (a : Rendering) : Prop := ∀ c, (a c).2 ≠ none

variable {a b : Rendering}

theorem fails_fail (name : Text) : (fail name).Fails := fun _ => Option.some_ne_none name

theorem Fails.exists_eq (h : a.Fails) (c : Canvas) : ∃ c' name, a c = (c', some name) := by
  obtain ⟨name, hname⟩ := Option.ne_none_iff_exists'.1 (h c)
  exact ⟨(a c).1, name, Prod.ext rfl hname⟩

theorem Fails.andThen_left (h : a.Fails) (b : Rendering) : (a.andThen b).Fails := by
  intro c
  obtain ⟨c', name, hc⟩ := h.exists_eq c
  rw [andThen_of_fail hc]
  exact Option.some_ne_none name

/-- a second step that fails is reached, or the first one has failed -/
theorem Fails.andThen_right (h : b.Fails) (a : Rendering) : (a.andThen b).Fails := by
  intro c
  rcases hc : a c with ⟨c', _ | name⟩
  · rw [andThen_of_ok hc]
    exact h c'
  · rw [andThen_of_fail hc]
    exact Option.some_ne_none name

theorem Fails.indented (h : a.Fails) (indent : Text) : (Rendering.indented indent a).Fails := by
  intro c
  obtain ⟨c', name, hc⟩ := h.exists_eq { c with pieces := [] }
  rw [indented_of_fail hc]
  exact Option.some_ne_none name

end Rendering

/-- a node of the tree outside every block is rendered on any canvas that is come to -/
theorem Tree.render_fails {incl : Text → Option Text → Rendering} {n : Node} (hn : n ∈ t)
    (h : (n.render incl).Fails) : (Tree.render incl t).Fails := by
  obtain ⟨before, after, rfl⟩ := List.append_of_mem hn
  rw [render_append, render_cons]
  exact (h.andThen_left _).andThen_right _

/-- the template of the name includes the next one outside every block -/
def Unguarded (partials : Partials) (name next : Text) : Prop :=
  ∃ u indent, partials name = some u ∧ Node.inclusion next indent ∈ u

/-- the name leads to a cycle by inclusions that no block guards -/
def Endless (partials : Partials) (name : Text) : Prop :=
  ∃ next, Relation.ReflTransGen (Unguarded partials) name next ∧
    Relation.TransGen (Unguarded partials) next next

/-- from an endless name it goes on to an endless name -/
theorem Endless.step {name : Text} (h : Endless partials name) :
    ∃ u next indent, partials name = some u ∧ Node.inclusion next indent ∈ u ∧
      Endless partials next := by
  obtain ⟨last, hreach, hcycle⟩ := h
  have hstart : Relation.TransGen (Unguarded partials) name last :=
    Relation.TransGen.trans_right hreach hcycle
  obtain ⟨next, ⟨u, indent, hu, hnext⟩, hrest⟩ := Relation.TransGen.head'_iff.1 hstart
  exact ⟨u, next, indent, hu, hnext, last, hrest, hcycle⟩

/-- however many levels are left, an endless inclusion uses them up -/
theorem inclusion_fails {name : Text} (h : Endless partials name) (levels : Nat)
    (indent : Option Text) : (inclusion partials levels name indent).Fails := by
  induction levels generalizing name indent with
  | zero =>
    obtain ⟨u, -, -, hu, -⟩ := h.step
    rw [inclusion_zero_of_eq_some hu]
    exact Rendering.fails_fail name
  | succ levels ih =>
    obtain ⟨u, next, i, hu, hnext, hendless⟩ := h.step
    have hinside : (Tree.render (inclusion partials levels) u).Fails := by
      apply Tree.render_fails hnext
      rw [Node.render]
      exact ih hendless i
    cases indent with
    | none =>
      rw [inclusion_succ_of_eq_some hu]
      exact hinside
    | some i =>
      rw [inclusion_succ_some_of_eq_some hu]
      exact hinside.indented i

/-- **A cycle that no block guards always fails.**  If inclusions outside every block lead from the
tree to a template that comes back to itself by such inclusions, then rendering fails for any data,
and with any bound on the depth. -/
theorem render_unguarded_cycle {first name : Text} {indent : Option Text}
    (hroot : Node.inclusion first indent ∈ t)
    (hreach : Relation.ReflTransGen (Unguarded partials) first name)
    (hcycle : Relation.TransGen (Unguarded partials) name name) (maxDepth : Nat) (data : Value) :
    ∃ bad, render partials maxDepth t data = .error ⟨bad, maxDepth⟩ := by
  have hendless : Endless partials first := ⟨name, hreach, hcycle⟩
  have hfails : (Tree.render (inclusion partials maxDepth) t).Fails := by
    apply Tree.render_fails hroot
    rw [Node.render]
    exact inclusion_fails hendless maxDepth indent
  obtain ⟨c, bad, hout⟩ := hfails.exists_eq (.ofData data)
  rw [render, hout]
  exact ⟨bad, rfl⟩

/-- a cycle of two templates, the second one indented, behind a template that is in no cycle -/
def spiral : PartialTable :=
  ⟨[⟨"start".toList, "{{^x}}{{> loop}}{{/x}}{{> loop}}".toList,
      [.block (.dotted ['x'] []) true [.inclusion "loop".toList none],
        .inclusion "loop".toList none]⟩,
    ⟨"loop".toList, "a\n {{> back}}\n".toList,
      [.text ['a', '\n'], .inclusion "back".toList (some [' '])]⟩,
    ⟨"back".toList, "{{> loop}}b".toList, [.inclusion "loop".toList none, .text ['b']]⟩]⟩

theorem render_unguarded_cycle_spiral :
    Relation.ReflTransGen (Unguarded spiral.tree?) "start".toList "loop".toList ∧
    Relation.TransGen (Unguarded spiral.tree?) "loop".toList "loop".toList ∧
    ∃ bad, render spiral.tree? 50 [.text ['('], .inclusion "start".toList none] .emptyMap =
      .error ⟨bad, 50⟩ := by
  have hloop : Unguarded spiral.tree? "start".toList "loop".toList :=
    ⟨_, none, rfl, .tail _ (.head _)⟩
  have hback : Unguarded spiral.tree? "loop".toList "back".toList :=
    ⟨_, some [' '], rfl, .tail _ (.head _)⟩
  have hagain : Unguarded spiral.tree? "back".toList "loop".toList := ⟨_, none, rfl, .head _⟩
  have hroot : Node.inclusion "start".toList none ∈
      [.text ['('], .inclusion "start".toList none] := .tail _ (.head _)
  have hreach := Relation.ReflTransGen.single hloop
  have hcycle := Relation.TransGen.head hback (.single hagain)
  exact ⟨hreach, hcycle, render_unguarded_cycle hroot hreach hcycle 50 .emptyMap⟩

end Mustache
