import Mathlib.Logic.Function.Basic
import Mustache.Proofs.Limit

/-!
# Reading through a recorder

Some templates share a storage; they are compiled, and the storage is read, in any order.  With a
recorder in front of the storage all this has the same outcomes, and the recorder holds the reads
that are made without it, those past it left out.

* `Shared`             templates that share a storage; `Shared.step`, `Shared.run`
* `Shared.issued`      the reads of an operation that a recorder is to write down
* `run_recorded`       a run on a recorder
* `calls_of_compile`   the calls of one compile
* `recorder_faithful`  a recorder changes no result, and holds the calls
-/

namespace Mustache

section
variable {σ : Type} [Storage σ]

/-! ## compiling -/

/-- compiling through a recorder -/
theorem Template.compile_recorder (t : Template) (r : Recorder σ) :
    t.compile r = ((t.compile r.inner).1, (t.compile r.inner).2.1,
      ⟨(t.compile r.inner).2.2, r.calls ++ t.maker.calls r.inner⟩) := by
  have hmake := t.maker.run_recorder r
  rw [run_maker, run_maker] at hmake
  rw [compile_eq, compile_eq, hmake]

/-! ## templates that share a storage -/

/-- what is done with the templates that share a storage, each under its label -/
inductive Operation (ι : Type) where
  | read (name : Text) (encoding : Encoding)
  /-- a read past the recorder, if there is one -/
  | readInner (name : Text) (encoding : Encoding)
  | compile (i : ι)

inductive Outcome where
  | answered (answer : Except ReadError Text)
  | compiled (error : Option TemplateError)

/-- templates and their storage -/
structure Shared (ι σ : Type) where
  templates : ι → Template
  storage : σ

namespace Shared
variable {ι : Type}

/-- with a recorder in front of the storage that holds these calls -/
def recorded (w : Shared ι σ) (calls : List Call) : Shared ι (Recorder σ) :=
  ⟨w.templates, ⟨w.storage, calls⟩⟩

/-- The reads of an operation that do not go past the recorder.  What they are hangs on the storage
itself, since a client chooses its next read by the answers it has. -/
def issued (w : Shared ι σ) : Operation ι → List Call
  | .read name encoding => [⟨name, encoding⟩]
  | .readInner _ _ => []
  | .compile i => (w.templates i).maker.calls w.storage

variable [DecidableEq ι]

/-- one operation; `past` is a read past the recorder -/
def step (past : σ → Text → Encoding → Except ReadError Text × σ) (w : Shared ι σ) :
    Operation ι → Outcome × Shared ι σ
  | .read name encoding =>
    let (answer, s) := Storage.read w.storage name encoding
    (.answered answer, { w with storage := s })
  | .readInner name encoding =>
    let (answer, s) := past w.storage name encoding
    (.answered answer, { w with storage := s })
  | .compile i =>
    let (t, error, s) := (w.templates i).compile w.storage
    (.compiled error, ⟨Function.update w.templates i t, s⟩)

def run (past : σ → Text → Encoding → Except ReadError Text × σ) (w : Shared ι σ) :
    List (Operation ι) → List Outcome × Shared ι σ
  | [] => ([], w)
  | op :: ops =>
    let (outcome, w') := w.step past op
    let (outcomes, w'') := run past w' ops
    (outcome :: outcomes, w'')

theorem step_compile (past : σ → Text → Encoding → Except ReadError Text × σ) (w : Shared ι σ)
    (i : ι) : w.step past (.compile i) =
      (.compiled ((w.templates i).compile w.storage).2.1,
        ⟨Function.update w.templates i ((w.templates i).compile w.storage).1,
          ((w.templates i).compile w.storage).2.2⟩) := rfl

theorem run_cons (past : σ → Text → Encoding → Except ReadError Text × σ) (w : Shared ι σ)
    (op : Operation ι) (ops : List (Operation ι)) : w.run past (op :: ops) =
      ((w.step past op).1 :: ((w.step past op).2.run past ops).1,
        ((w.step past op).2.run past ops).2) := rfl

/-- the reads of a run on the storage itself, but for those past the recorder -/
def issuedEach (w : Shared ι σ) : List (Operation ι) → List Call
  | [] => []
  | op :: ops => w.issued op ++ issuedEach (w.step Storage.read op).2 ops

theorem step_recorded (w : Shared ι σ) (calls : List Call) (op : Operation ι) :
    (w.recorded calls).step Recorder.readInner op =
      ((w.step Storage.read op).1, (w.step Storage.read op).2.recorded (calls ++ w.issued op)) := by
  cases op with
  | read name encoding => rfl
  | readInner name encoding =>
    rw [issued, List.append_nil]
    rfl
  | compile i =>
    have hcompile := (w.templates i).compile_recorder ⟨w.storage, calls⟩
    rw [step_compile, step_compile, recorded, hcompile]
    rfl

theorem run_recorded (w : Shared ι σ) (calls : List Call) (ops : List (Operation ι)) :
    (w.recorded calls).run Recorder.readInner ops =
      ((w.run Storage.read ops).1,
        (w.run Storage.read ops).2.recorded (calls ++ w.issuedEach ops)) := by
  induction ops generalizing w calls with
  | nil =>
    rw [issuedEach, List.append_nil]
    rfl
  | cons op ops ih =>
    rw [run_cons, run_cons, step_recorded, ih, issuedEach, List.append_assoc]

end Shared

/-! ## the calls of one compile -/

/-- the partial whose read or whose text made compiling fail -/
def TemplateError.failing? : TemplateError → Option Text
  | .resolve (.unreadable name _) => some name
  | .resolve (.unparsable name _) => some name
  | _ => none

theorem Loading.Ends.head?_queue {limit : Nat} {l : Loading σ} {e : ResolveError} {s : σ}
    (h : l.Ends limit (.error e, s)) {bad : Text}
    (hbad : (TemplateError.resolve e).failing? = some bad) : l.queue.head? = some bad := by
  cases h with
  | unreadable _ => exact hbad
  | unparsable _ _ => exact hbad
  | tooMany _ _ hdisc =>
    obtain rfl := discover_eq_tooMany hdisc
    cases hbad

theorem calls_of_resolve_error {limit : Nat} {t : Tree} {r r' : Recorder σ} {e : ResolveError}
    (h : resolve limit t r = (.error e, r')) : ∃ names : List Text, names.Nodup ∧
      r'.calls = r.calls ++ names.map (⟨·, .utf8⟩) ∧
      ∀ bad, (TemplateError.resolve e).failing? = some bad → names.getLast? = some bad := by
  unfold resolve at h
  split at h
  · next e' hdisc =>
    obtain ⟨he, rfl⟩ := Prod.mk.inj h
    obtain rfl := Except.error.inj he
    obtain rfl := discover_eq_tooMany hdisc
    exact ⟨[], List.nodup_nil, (List.append_nil _).symm, fun bad hbad => by cases hbad⟩
  · next queue hdisc =>
    obtain ⟨l, hrun, hend⟩ := Loading.exists_ends limit .empty queue r
    rw [h] at hend
    have hsound : l.Sound t r := (Loading.Sound.start hdisc).run hrun
    refine ⟨l.table.names ++ l.queue.take 1, ?_, ?_, fun bad hbad => ?_⟩
    · exact ((List.take_sublist 1 l.queue).append_left _).nodup hsound.nodup
    · rw [hend.calls_eq, hsound.calls_eq, List.map_append, List.append_assoc]
    · obtain ⟨rest, hqueue⟩ := List.head?_eq_some_iff.1 (hend.head?_queue hbad)
      rw [hqueue]
      exact List.getLast?_concat

theorem calls_of_compile {t t' : Template} {r r' : Recorder σ}
    (h : t.compile r = (t', none, r')) : ∃ a, t'.artifact = some a ∧
      r'.calls = r.calls ++ a.table.names.map (⟨·, .utf8⟩) := by
  obtain ⟨a, hartifact, hmake⟩ := Template.makeArtifact_of_compile h
  exact ⟨a, hartifact, (calls_of_resolve (Template.makeArtifact_eq_ok_iff.1 hmake).2).2⟩

theorem calls_of_compile_error {t t' : Template} {r r' : Recorder σ} {e : TemplateError}
    (h : t.compile r = (t', some e, r')) : ∃ names : List Text, names.Nodup ∧
      r'.calls = r.calls ++ names.map (⟨·, .utf8⟩) ∧
      ∀ bad, e.failing? = some bad → names.getLast? = some bad := by
  have hmake := Template.makeArtifact_of_compile_error h
  unfold Template.makeArtifact at hmake
  split at hmake
  · next e' _ =>
    cases hmake
    exact ⟨[], List.nodup_nil, (List.append_nil _).symm, fun bad hbad => by cases hbad⟩
  · next tree _ =>
    rcases hres : resolve t.options.maxPartials tree r with ⟨e' | table, r₁⟩
    · rw [hres] at hmake
      cases hmake
      exact calls_of_resolve_error hres
    · rw [hres] at hmake
      cases hmake

/-- **A recorder changes nothing and misses nothing.**  Whatever is done with some templates and a
recorder that they share, reads past the recorder among it, has the outcomes that it has without the
recorder, and leaves the same templates and the same storage; and the recorder holds, behind what it
held before, the reads of the operations in order, but not those past it.  So a compile is written
down as the names of its table, and one that fails as some names, each of them once, of which the
last is the partial that is to blame. -/
theorem recorder_faithful {ι : Type} [DecidableEq ι] (w : Shared ι σ) (calls : List Call)
    (ops : List (Operation ι)) :
    (w.recorded calls).run Recorder.readInner ops =
      ((w.run Storage.read ops).1,
        (w.run Storage.read ops).2.recorded (calls ++ w.issuedEach ops)) ∧
    (∀ call ∈ w.issuedEach ops, call.encoding = .utf8) ∧
    (∀ (t : Template) (s : σ), t.maker.run s = t.makeArtifact s) ∧
    (∀ (t t' : Template) (r r' : Recorder σ), t.compile r = (t', none, r') →
      ∃ a, t'.artifact = some a ∧ r'.calls = r.calls ++ a.table.names.map (⟨·, .utf8⟩)) ∧
    ∀ (t t' : Template) (r r' : Recorder σ) e, t.compile r = (t', some e, r') →
      ∃ names : List Text, names.Nodup ∧ r'.calls = r.calls ++ names.map (⟨·, .utf8⟩) ∧
        ∀ bad, e.failing? = some bad → names.getLast? = some bad := by
  refine ⟨w.run_recorded calls ops, fun call _ => rfl, Template.run_maker,
    fun t t' r r' h => calls_of_compile h, fun t t' r r' e h => calls_of_compile_error h⟩

/-- a storage whose second answer for `a` names a partial that is missing -/
def forgetful : ScriptedStorage := ⟨[("a".toList, [.text [], .text "{{> b}}".toList])], .missing⟩

/-- one template, which includes `a` -/
def page : Shared Unit ScriptedStorage := ⟨fun _ => .ofText "{{> a}}".toList, forgetful⟩

-- the first answer is taken past the recorder, so that the page's compile fails at `b`
theorem recorder_faithful_page :
    ((page.recorded []).run Recorder.readInner [.readInner "a".toList .utf8,
        .read "x".toList .utf8, .compile ()]).2.storage.names =
      ["x".toList, "a".toList, "b".toList] ∧
    (∃ t a r, (Template.ofText "{{> a}}".toList).compile (Recorder.ofStorage forgetful) =
        (t, none, r) ∧
      t.artifact = some a ∧ r.calls = a.table.names.map (⟨·, .utf8⟩) ∧
      r.calls = [⟨"a".toList, .utf8⟩]) ∧
    ∃ t r, ∃ names : List Text,
      (Template.ofText "{{> b}}".toList).compile (Recorder.ofStorage forgetful) =
        (t, some (.resolve (.unreadable "b".toList (.notFound "b".toList))), r) ∧
      r.calls = names.map (⟨·, .utf8⟩) ∧ names.getLast? = some "b".toList := by
  obtain ⟨hrun, -, -, hok, herror⟩ := recorder_faithful page [] [.readInner "a".toList .utf8,
    .read "x".toList .utf8, .compile ()]
  have hcompiled : (Template.ofText "{{> a}}".toList).compile (Recorder.ofStorage forgetful) =
      (⟨"{{> a}}".toList, .standard, some ⟨[.inclusion "a".toList none],
        ⟨[⟨"a".toList, [], []⟩]⟩⟩⟩, none,
        ⟨forgetful.advance "a".toList, [⟨"a".toList, .utf8⟩]⟩) := by with_unfolding_all rfl
  have hfailed : (Template.ofText "{{> b}}".toList).compile (Recorder.ofStorage forgetful) =
      (.ofText "{{> b}}".toList, some (.resolve (.unreadable "b".toList (.notFound "b".toList))),
        ⟨forgetful, [⟨"b".toList, .utf8⟩]⟩) := by with_unfolding_all rfl
  obtain ⟨a, hartifact, hcalls⟩ := hok _ _ _ _ hcompiled
  obtain ⟨names, -, hcalls', hlast⟩ := herror _ _ _ _ _ hfailed
  refine ⟨?_, ⟨_, a, _, hcompiled, hartifact, hcalls, rfl⟩, _, _, names, hfailed, hcalls',
    hlast _ rfl⟩
  rw [hrun]
  decide +kernel

end
end Mustache
