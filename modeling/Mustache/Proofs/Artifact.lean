import Mathlib.Data.List.Basic
import Mustache.Proofs.Lifecycle
import Mustache.Proofs.Outcome
import Mustache.Proofs.Simulation

/-!
# Artifacts are complete

An artifact holds the partials that were loaded for its tree and no others.  Rendering it is the
same as rendering the tree with all the texts there are, since no inclusion asks for a partial that
was not loaded.

* `MemoryStorage.trees`        all the texts in memory, parsed
* `inclusionOr`                an inclusion with a step of its own for a name without a template
* `Complete`                   a table in which every reference has its template
* `Template.render_complete`   what a compiled template renders
-/

namespace Mustache

/-! ## the texts there are -/

/-- the tree of every text in memory; a text that does not parse has none -/
def MemoryStorage.trees (m : MemoryStorage) : Partials := fun name =>
  (m.text? name).bind fun t => (parse t).toOption

theorem MemoryStorage.trees_of_parse {m : MemoryStorage} {name source : Text} {tree : Tree}
    (hread : m.text? name = some source) (hparse : parse source = .ok tree) :
    m.trees name = some tree := by
  rw [trees, hread]
  show (parse source).toOption = some tree
  rw [hparse]
  rfl

/-! ## names without a template -/

/-- an inclusion, but with the step `unknown` for a name without a template -/
def inclusionOr (unknown : Text → Rendering) (partials : Partials) :
    Nat → Text → Option Text → Rendering
  | 0, name, _ =>
    match partials name with
    | none => unknown name
    | some _ => .fail name
  | levels + 1, name, indent =>
    match partials name with
    | none => unknown name
    | some t =>
      match indent with
      | none => Tree.render (inclusionOr unknown partials levels) t
      | some i => .indented i (Tree.render (inclusionOr unknown partials levels) t)

theorem inclusionOr_done (partials : Partials) (levels : Nat) :
    inclusionOr (fun _ => .done) partials levels = inclusion partials levels := by
  induction levels with
  | zero => rfl
  | succ levels ih =>
    funext name indent
    cases hu : partials name with
    | none => simp only [inclusionOr, inclusion, hu]
    | some t => cases indent <;> simp only [inclusionOr, inclusion, hu, ih]

/-- a table in which every reference of the tree `t`, and of each tree in it, has its tree -/
structure Complete (table : PartialTable) (t : Tree) : Prop where
  root : t.references ⊆ table.names
  closed (name : Text) (u : Tree) (h : table.tree? name = some u) : u.references ⊆ table.names
  known (name : Text) (h : name ∈ table.names) : ∃ u, table.tree? name = some u

variable {table : PartialTable} {t : Tree}

namespace Complete

/-- with the templates of the table and any others, an inclusion does what it does with those of
the table alone, whatever is done at unknown names -/
theorem inclusionOr_eq (h : Complete table t) {partials : Partials}
    (hsame : ∀ name ∈ table.names, partials name = table.tree? name)
    (unknown : Text → Rendering) (levels : Nat) (name : Text) (hname : name ∈ table.names)
    (indent : Option Text) :
    inclusionOr unknown table.tree? levels name indent = inclusion partials levels name indent := by
  refine inclusion_induct (R := fun levels name indent a => name ∈ table.names →
    inclusionOr unknown table.tree? levels name indent = a) ?unknown ?tooDeep ?plain ?indented
    levels name indent hname
  case unknown =>
    intro levels name indent hnone hname
    obtain ⟨u, hu⟩ := h.known name hname
    rw [hsame name hname, hu] at hnone
    cases hnone
  case tooDeep =>
    intro name indent u hu hname
    rw [hsame name hname] at hu
    simp only [inclusionOr, hu]
  case plain =>
    intro levels name u hu ih hname
    rw [hsame name hname] at hu
    simp only [inclusionOr, hu]
    exact Tree.render_congr fun next hnext indent => ih next indent (h.closed name u hu hnext)
  case indented =>
    intro levels name i u hu ih hname
    rw [hsame name hname] at hu
    simp only [inclusionOr, hu]
    rw [Tree.render_congr fun next hnext indent => ih next indent (h.closed name u hu hnext)]

theorem render_inclusionOr (h : Complete table t) {partials : Partials}
    (hsame : ∀ name ∈ table.names, partials name = table.tree? name)
    (unknown : Text → Rendering) (levels : Nat) :
    Tree.render (inclusionOr unknown table.tree? levels) t =
      Tree.render (inclusion partials levels) t :=
  Tree.render_congr fun name hname indent =>
    h.inclusionOr_eq hsame unknown levels name (h.root hname) indent

theorem render_eq (h : Complete table t) {partials : Partials}
    (hsame : ∀ name ∈ table.names, partials name = table.tree? name) (maxDepth : Nat)
    (data : Value) : render table.tree? maxDepth t data = render partials maxDepth t data := by
  rw [render, render, ← h.render_inclusionOr hsame (fun _ => .done), inclusionOr_done]

end Complete

/-! ## compiling -/

theorem Loaded.complete {σ : Type} [Storage σ] {s s' : σ} (h : Loaded t s table s') :
    Complete table t where
  root := h.references_subset
  closed := h.closed
  known name hname := by
    obtain ⟨source, tree, -, -, htree⟩ := h.parse_source name hname
    exact ⟨tree, htree⟩

/-- what was loaded from memory is what is there -/
theorem Loaded.trees_eq {m m' : MemoryStorage} (h : Loaded t m table m') :
    ∀ name ∈ table.names, m.trees name = table.tree? name := by
  intro name hname
  obtain ⟨source, tree, hsource, hparse, htree⟩ := h.parse_source name hname
  have hreads := congrArg Prod.fst h.readEach_eq
  rw [m.answers.readEach_eq] at hreads
  have hread := List.map_inj_left.1 hreads name hname
  rw [hsource] at hread
  have htext : m.text? name = some source := by
    cases ht : m.text? name with
    | none =>
      rw [ht] at hread
      cases hread
    | some text =>
      rw [ht] at hread
      rw [Except.ok.inj hread]
      rfl
  rw [htree, MemoryStorage.trees_of_parse htext hparse]

theorem Template.artifact_of_compile {σ : Type} [Storage σ] {t t' : Template} {s s' : σ}
    (h : t.compile s = (t', none, s')) : ∃ a, t'.artifact = some a ∧
      parse t.source = .ok a.tree ∧ Loaded a.tree s a.table s' := by
  obtain ⟨a, hartifact, hmake⟩ := makeArtifact_of_compile h
  obtain ⟨hparse, hresolve⟩ := makeArtifact_eq_ok_iff.1 hmake
  exact ⟨a, hartifact, hparse, (resolve_sound hresolve).loaded⟩

/-- **An artifact is complete.**  A template that was compiled from texts in memory renders what its
tree renders with all these texts as templates, and no inclusion it comes to is unknown: any other
step could be taken there. -/
theorem Template.render_complete {t t' : Template} {m m' : MemoryStorage}
    (h : t.compile m = (t', none, m')) :
    ∃ a, t'.artifact = some a ∧ parse t.source = .ok a.tree ∧
      (∀ data o, o.trimOutput = false →
        a.render data o = Mustache.render m.trees o.maxDepth a.tree (data.getD .emptyMap)) ∧
      ∀ unknown levels, Tree.render (inclusionOr unknown a.table.tree? levels) a.tree =
        Tree.render (inclusion a.table.tree? levels) a.tree := by
  obtain ⟨a, hartifact, hparse, hloaded⟩ := artifact_of_compile h
  refine ⟨a, hartifact, hparse, fun data o htrim => ?_, fun unknown levels => ?_⟩
  · rw [Artifact.render, hloaded.complete.render_eq hloaded.trees_eq, htrim]
    rcases Mustache.render m.trees o.maxDepth a.tree (data.getD .emptyMap) with e | out <;> rfl
  · exact hloaded.complete.render_inclusionOr (fun _ _ => rfl) unknown levels

/-- a letter that needs a name, and a text that it does not need -/
def letters : MemoryStorage :=
  ⟨[("letter".toList, "Dear {{> name}}".toList), ("name".toList, "{{who}}".toList),
    ("reply".toList, "{{> letter}}".toList)]⟩

theorem Template.render_complete_letter : ∃ t',
    (ofText "{{> letter}}".toList).compile letters = (t', none, letters) ∧
    ∃ a, t'.artifact = some a ∧ a.table.names = ["letter".toList, "name".toList] ∧
      parse "{{> letter}}".toList = .ok a.tree ∧
      (∀ data o, o.trimOutput = false →
        a.render data o = Mustache.render letters.trees o.maxDepth a.tree (data.getD .emptyMap)) ∧
      ∀ unknown levels, Tree.render (inclusionOr unknown a.table.tree? levels) a.tree =
        Tree.render (inclusion a.table.tree? levels) a.tree := by
  have hroot : parse "{{> letter}}".toList = .ok [.inclusion "letter".toList none] :=
    parse_eq_ok_iff.2 (by with_unfolding_all rfl)
  have hletter : parse "Dear {{> name}}".toList =
      .ok [.text "Dear ".toList, .inclusion "name".toList none] :=
    parse_eq_ok_iff.2 (by with_unfolding_all rfl)
  have hname : parse "{{who}}".toList = .ok [.var (.dotted "who".toList []) true] :=
    parse_eq_ok_iff.2 (by with_unfolding_all rfl)
  have hload : Relation.ReflTransGen (Loading.Step Options.standard.maxPartials)
      ⟨.empty, ["letter".toList], letters⟩ _ :=
    .head (.load rfl hletter rfl) <| .single (.load rfl hname rfl)
  have hmake : (ofText "{{> letter}}".toList).makeArtifact letters = (.ok ⟨_, _⟩, letters) :=
    makeArtifact_eq_ok_iff.2 ⟨hroot, Loading.loadFrom_of_run hload .done⟩
  have hcompile := (ofText "{{> letter}}".toList).compile_eq letters
  rw [hmake] at hcompile
  obtain ⟨a, hartifact, hparse, hrender, hunknown⟩ := render_complete hcompile
  obtain rfl := Option.some.inj hartifact
  exact ⟨_, hcompile, _, rfl, rfl, hparse, hrender, hunknown⟩

end Mustache
