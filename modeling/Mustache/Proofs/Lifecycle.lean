import Mathlib.Data.List.Basic
import Mustache.Proofs.Loading
import Mustache.Storage.Memory
import Mustache.Template

/-!
# The life of a template

A template is compiled, rendered and looked at any number of times, while the storage behind it
changes.  What it renders is told by its last compile alone.

* `Template.Made`        a template that was just made
* `Session`              a template and its storage, behind a recorder
* `Session.step`         one action and its answer; `Session.run`, many of them
* `Session.CompiledAt`   what the last compile left behind
* `Session.Lifecycle`    a session after some actions
* `Session.lifecycle`    every session that starts with a new template is such a session
-/

namespace Mustache

/-- a template that was just made, from a text alone or with options for some storage -/
inductive Template.Made (source : Text) : Options → Template → Prop where
  | ofText : Made source .standard (ofText source)
  | build {τ : Type} {options : Options} {storage : Option τ} {t : Template} :
      build source options storage = .ok t → Made source options t

theorem Template.Made.eq {source : Text} {options : Options} {t : Template}
    (h : Made source options t) : t = ⟨source, options, none⟩ := by
  cases h with
  | ofText => rfl
  | @build τ _ storage _ hbuild =>
    cases storage with
    | none => cases hbuild
    | some s => exact (Except.ok.inj hbuild).symm

/-! ## sessions -/

/-- what may happen to a template and to the storage behind it -/
inductive Action (σ : Type) where
  | compile
  | render (data : Option Value)
  | renderWith (data : Option Value) (o : Options)
  | inspect
  /-- the storage becomes another one -/
  | change (s : σ)

inductive Answer where
  | compiled (error : Option TemplateError)
  | rendered (result : Except TemplateError Text)
  | inspected (t : Template)
  | changed

/-- a template and its storage -/
structure Session (σ : Type) where
  template : Template
  storage : Recorder σ

section
variable {σ : Type} [Storage σ]

/-! ## compiling -/

namespace Template

/-- whatever compiling ends with, it has done nothing to the storage but read some names -/
theorem exists_readEach_makeArtifact (t : Template) (s : σ) :
    ∃ names, (t.makeArtifact s).2 = (Storage.readEach s names).2 := by
  rw [← run_maker]
  exact ⟨_, t.maker.run_snd s⟩

theorem makeArtifact_eq_ok_iff {t : Template} {s s' : σ} {a : Artifact} :
    t.makeArtifact s = (.ok a, s') ↔
      parse t.source = .ok a.tree ∧
        resolve t.options.maxPartials a.tree s = (.ok a.table, s') := by
  unfold makeArtifact
  constructor
  · intro h
    split at h
    · cases h
    · next tree hparse =>
      rw [hparse]
      rcases hr : resolve t.options.maxPartials tree s with ⟨_ | table, s₁⟩
      · rw [hr] at h
        cases h
      · rw [hr] at h
        cases h
        exact ⟨rfl, hr⟩
  · rintro ⟨hparse, hresolve⟩
    simp only [hparse, hresolve]

/-- compiling puts what is made in the place of the artifact, and forgets the old one -/
theorem compile_eq (t : Template) (s : σ) : t.compile s =
    ({ t with artifact := (t.makeArtifact s).1.toOption },
      (match (t.makeArtifact s).1 with
        | .error e => some e
        | .ok _ => none),
      (t.makeArtifact s).2) := by
  unfold compile
  rcases t.makeArtifact s with ⟨_ | _, s'⟩ <;> rfl

theorem makeArtifact_of_compile {t t' : Template} {s s' : σ} (h : t.compile s = (t', none, s')) :
    ∃ a, t'.artifact = some a ∧ t.makeArtifact s = (.ok a, s') := by
  rw [compile_eq] at h
  rcases hmake : t.makeArtifact s with ⟨e | a, s₁⟩
  · rw [hmake] at h
    cases h
  · rw [hmake] at h
    cases h
    exact ⟨a, rfl, rfl⟩

theorem makeArtifact_of_compile_error {t t' : Template} {s s' : σ} {e : TemplateError}
    (h : t.compile s = (t', some e, s')) : t.makeArtifact s = (.error e, s') := by
  rw [compile_eq] at h
  rcases hmake : t.makeArtifact s with ⟨e' | a, s₁⟩
  · rw [hmake] at h
    cases h
    rfl
  · rw [hmake] at h
    cases h

theorem renderWith_eq_notCompiled_iff (t : Template) (data : Option Value) (o : Options) :
    t.renderWith data o = .error .notCompiled ↔ t.artifact = none := by
  unfold renderWith
  cases t.artifact with
  | none => exact ⟨fun _ => rfl, fun _ => rfl⟩
  | some a =>
    show (a.render data o).mapError TemplateError.recursion = _ ↔ _
    cases a.render data o with
    | error e => exact ⟨nofun, nofun⟩
    | ok out => exact ⟨nofun, nofun⟩

theorem renderWith_of_artifact {t : Template} {a : Artifact} (h : t.artifact = some a)
    (data : Option Value) (o : Options) :
    t.renderWith data o = (a.render data o).mapError .recursion := by
  rw [renderWith, h]

end Template

/-- a recorder writes down the names of the table, behind what it has already -/
theorem calls_of_resolve {limit : Nat} {t : Tree} {r r' : Recorder σ} {table : PartialTable}
    (h : resolve limit t r = (.ok table, r')) :
    Loaded t r.inner table r'.inner ∧ r'.calls = r.calls ++ table.names.map (⟨·, .utf8⟩) := by
  obtain ⟨s, calls⟩ := r
  obtain ⟨htable, hinner⟩ := resolve_recorder limit t s calls
  rw [h] at htable hinner
  have hbare : resolve limit t s = (.ok table, r'.inner) := Prod.ext htable.symm hinner.symm
  exact ⟨(resolve_sound hbare).loaded, (resolve_sound h).calls_eq⟩

namespace Session

/-! ## steps and runs -/

def step (st : Session σ) : Action σ → Answer × Session σ
  | .compile =>
    let (t, error, r) := st.template.compile st.storage
    (.compiled error, ⟨t, r⟩)
  | .render data => (.rendered (st.template.render data), st)
  | .renderWith data o => (.rendered (st.template.renderWith data o), st)
  | .inspect => (.inspected st.template, st)
  | .change s => (.changed, { st with storage := { st.storage with inner := s } })

def run (st : Session σ) : List (Action σ) → Session σ
  | [] => st
  | a :: actions => run (st.step a).2 actions

theorem run_append (st : Session σ) (actions more : List (Action σ)) :
    st.run (actions ++ more) = (st.run actions).run more := by
  induction actions generalizing st with
  | nil => rfl
  | cons a actions ih => exact ih (st.step a).2

theorem step_compile (st : Session σ) : st.step .compile =
    (.compiled (match (st.template.makeArtifact st.storage).1 with
        | .error e => some e
        | .ok _ => none),
      ⟨{ st.template with artifact := (st.template.makeArtifact st.storage).1.toOption },
        (st.template.makeArtifact st.storage).2⟩) := by
  rw [step, Template.compile_eq]

/-- no action but compiling touches the template, or reads -/
theorem step_of_ne_compile (st : Session σ) {a : Action σ} (h : a ≠ .compile) :
    (st.step a).2.template = st.template ∧ (st.step a).2.storage.calls = st.storage.calls := by
  cases a with
  | compile => exact absurd rfl h
  | render data => exact ⟨rfl, rfl⟩
  | renderWith data o => exact ⟨rfl, rfl⟩
  | inspect => exact ⟨rfl, rfl⟩
  | change s => exact ⟨rfl, rfl⟩

theorem run_of_notMem (st : Session σ) {actions : List (Action σ)} (h : .compile ∉ actions) :
    (st.run actions).template = st.template ∧
      (st.run actions).storage.calls = st.storage.calls := by
  induction actions generalizing st with
  | nil => exact ⟨rfl, rfl⟩
  | cons a actions ih =>
    rw [List.mem_cons, not_or] at h
    obtain ⟨htemplate, hcalls⟩ := st.step_of_ne_compile (Ne.symm h.1)
    obtain ⟨htemplate', hcalls'⟩ := ih (st.step a).2 h.2
    exact ⟨htemplate'.trans htemplate, hcalls'.trans hcalls⟩

theorem step_source_options (st : Session σ) (a : Action σ) :
    (st.step a).2.template.source = st.template.source ∧
      (st.step a).2.template.options = st.template.options := by
  by_cases h : a = .compile
  · subst h
    rw [step_compile]
    exact ⟨rfl, rfl⟩
  · rw [(st.step_of_ne_compile h).1]
    exact ⟨rfl, rfl⟩

theorem run_source_options (st : Session σ) (actions : List (Action σ)) :
    (st.run actions).template.source = st.template.source ∧
      (st.run actions).template.options = st.template.options := by
  induction actions generalizing st with
  | nil => exact ⟨rfl, rfl⟩
  | cons a actions ih =>
    obtain ⟨hsource, hoptions⟩ := st.step_source_options a
    obtain ⟨hsource', hoptions'⟩ := ih (st.step a).2
    exact ⟨hsource'.trans hsource, hoptions'.trans hoptions⟩

/-! ## the last compile -/

/-- The session `st`, whose last compile began in the session `before`. -/
structure CompiledAt (source : Text) (options : Options) (before st : Session σ) : Prop where
  /-- the template is as the compile left it, and nothing was read since -/
  template_eq : st.template = (before.step .compile).2.template
  calls_eq : st.storage.calls = (before.step .compile).2.storage.calls
  /-- the artifact is the one a new template makes of the same storage -/
  artifact_eq : st.template.artifact =
    ((Template.mk source options none).makeArtifact before.storage).1.toOption
  /-- there is none exactly when compiling failed -/
  artifact_eq_none_iff : st.template.artifact = none ↔
    ∃ e, (before.step .compile).1 = .compiled (some e)
  /-- compiling has read some names from the storage it found, and done nothing else to it -/
  reads : ∃ names, (before.step .compile).2.storage = (Storage.readEach before.storage names).2
  /-- the tree is that of the source, and all the tree needs was read by this compile -/
  loaded (a : Artifact) (h : st.template.artifact = some a) :
    parse source = .ok a.tree ∧
    Loaded a.tree before.storage.inner a.table (before.step .compile).2.storage.inner ∧
    st.storage.calls = before.storage.calls ++ a.table.names.map (⟨·, .utf8⟩)

theorem compiledAt {source : Text} {options : Options} {before st : Session σ}
    (hsource : before.template.source = source) (hoptions : before.template.options = options)
    (htemplate : st.template = (before.step .compile).2.template)
    (hcalls : st.storage.calls = (before.step .compile).2.storage.calls) :
    CompiledAt source options before st := by
  have hmake : (Template.mk source options none).makeArtifact before.storage =
      before.template.makeArtifact before.storage := by
    rw [← hsource, ← hoptions]
    rfl
  have hartifact : st.template.artifact =
      (before.template.makeArtifact before.storage).1.toOption := by
    rw [htemplate, step_compile]
  constructor
  case template_eq => exact htemplate
  case calls_eq => exact hcalls
  case artifact_eq => rw [hmake, hartifact]
  case artifact_eq_none_iff =>
    rw [hartifact, step_compile]
    cases (before.template.makeArtifact before.storage).1 with
    | error e => exact ⟨fun _ => ⟨e, rfl⟩, fun _ => rfl⟩
    | ok a => exact ⟨nofun, fun ⟨e, he⟩ => nomatch he⟩
  case reads =>
    rw [step_compile]
    exact before.template.exists_readEach_makeArtifact before.storage
  case loaded =>
    intro a ha
    rw [hcalls, step_compile]
    rcases hr : before.template.makeArtifact before.storage with ⟨_ | a', r⟩
    · rw [hartifact, hr] at ha
      cases ha
    · rw [hartifact, hr] at ha
      obtain rfl := Option.some.inj ha
      obtain ⟨hparse, hresolve⟩ := Template.makeArtifact_eq_ok_iff.1 hr
      rw [← hsource]
      exact ⟨hparse, calls_of_resolve hresolve⟩

/-- A session that began in `start`, with a new template of this source and these options, after
some actions. -/
structure Lifecycle (source : Text) (options : Options) (start : Session σ)
    (actions : List (Action σ)) (st : Session σ) : Prop where
  source_eq : st.template.source = source
  options_eq : st.template.options = options
  /-- only compiling reads -/
  calls_step (a : Action σ) (h : a ≠ .compile) :
    (st.step a).2.storage.calls = st.storage.calls
  /-- without a compile there is no artifact, and nothing was read -/
  never (h : .compile ∉ actions) :
    st.template.artifact = none ∧ st.storage.calls = start.storage.calls
  /-- otherwise the last compile decides, whatever happened before and since -/
  last (before after : List (Action σ)) (h : actions = before ++ .compile :: after)
    (hlast : .compile ∉ after) : CompiledAt source options (start.run before) st
  /-- rendering asks for an artifact, and for nothing but the artifact, options and data -/
  render_notCompiled_iff (data : Option Value) :
    (st.step (.render data)).1 = .rendered (.error .notCompiled) ↔ st.template.artifact = none
  render_eq (a : Artifact) (h : st.template.artifact = some a) (data : Option Value) :
    (st.step (.render data)).1 = .rendered ((a.render data options).mapError .recursion)
  renderWith_eq (a : Artifact) (h : st.template.artifact = some a) (data : Option Value)
    (o : Options) :
    (st.step (.renderWith data o)).1 = .rendered ((a.render data o).mapError .recursion)

/-- **A template renders what its last compile made.**  After any actions on a new template, and
any changes of the storage behind it, source and options are as they were; the artifact is the one
a new template would have made of the storage as the last compile found it, or there is none; and
nothing but a compile reads. -/
theorem lifecycle {source : Text} {options : Options} {t : Template}
    (h : t.Made source options) (r : Recorder σ) (actions : List (Action σ)) :
    Lifecycle source options ⟨t, r⟩ actions (run ⟨t, r⟩ actions) := by
  obtain rfl := h.eq
  have hkeep : ∀ actions, (run ⟨⟨source, options, none⟩, r⟩ actions).template.source = source ∧
      (run ⟨⟨source, options, none⟩, r⟩ actions).template.options = options := fun actions =>
    run_source_options ⟨⟨source, options, none⟩, r⟩ actions
  constructor
  case source_eq => exact (hkeep actions).1
  case options_eq => exact (hkeep actions).2
  case calls_step => exact fun a ha => (step_of_ne_compile _ ha).2
  case never =>
    intro hnever
    obtain ⟨htemplate, hcalls⟩ := run_of_notMem ⟨⟨source, options, none⟩, r⟩ hnever
    rw [htemplate]
    exact ⟨rfl, hcalls⟩
  case last =>
    rintro before after rfl hlast
    rw [run_append]
    obtain ⟨htemplate, hcalls⟩ := run_of_notMem
      ((run ⟨⟨source, options, none⟩, r⟩ before).step .compile).2 hlast
    exact compiledAt (hkeep before).1 (hkeep before).2 htemplate hcalls
  case render_notCompiled_iff =>
    intro data
    rw [← Template.renderWith_eq_notCompiled_iff _ data
      (run ⟨⟨source, options, none⟩, r⟩ actions).template.options]
    exact ⟨Answer.rendered.inj, congrArg Answer.rendered⟩
  case render_eq =>
    intro a ha data
    rw [step, Template.render, Template.renderWith_of_artifact ha, (hkeep actions).2]
  case renderWith_eq =>
    intro a ha data o
    rw [step, Template.renderWith_of_artifact ha]

/-- a template that includes another one, which is there at first -/
def greeting : Session MemoryStorage :=
  ⟨.ofText "{{> a}}!".toList, .ofStorage ⟨[("a".toList, "hi".toList)]⟩⟩

-- the text that is gone is rendered still, until a compile misses it
theorem lifecycle_greeting :
    Lifecycle "{{> a}}!".toList .standard greeting [.compile, .change .empty]
      (greeting.run [.compile, .change .empty]) ∧
    ((greeting.run [.compile, .change .empty]).step (.render none)).1 =
      .rendered (.ok "hi!".toList) ∧
    Lifecycle "{{> a}}!".toList .standard greeting [.compile, .change .empty, .compile]
      (greeting.run [.compile, .change .empty, .compile]) ∧
    (greeting.run [.compile, .change .empty, .compile]).template.artifact.isNone = true := by
  have hlife := lifecycle (t := greeting.template) .ofText greeting.storage
    [.compile, .change .empty]
  have hartifact : (greeting.run [.compile, .change .empty]).template.artifact =
      some ⟨[.inclusion "a".toList none, .text "!".toList],
        ⟨[⟨"a".toList, "hi".toList, [.text "hi".toList]⟩]⟩⟩ := by
    have hroot : parse "{{> a}}!".toList = .ok [.inclusion "a".toList none, .text "!".toList] :=
      parse_eq_ok_iff.2 (by with_unfolding_all rfl)
    have ha : parse "hi".toList = .ok [.text "hi".toList] :=
      parse_eq_ok_iff.2 (by with_unfolding_all rfl)
    have hload : Relation.ReflTransGen (Loading.Step Options.standard.maxPartials)
        ⟨.empty, ["a".toList], greeting.storage⟩ _ := .single (.load rfl ha rfl)
    have hmake : greeting.template.makeArtifact greeting.storage = (.ok ⟨_, _⟩, _) :=
      Template.makeArtifact_eq_ok_iff.2 ⟨hroot, Loading.loadFrom_of_run hload .done⟩
    -- the change of the storage leaves the template alone
    show (greeting.step .compile).2.template.artifact = _
    rw [step_compile, hmake]
    rfl
  refine ⟨hlife, (hlife.render_eq _ hartifact none).trans rfl, lifecycle .ofText _ _, ?_⟩
  decide +kernel

end Session
end
end Mustache
