import Mustache.Storage.Recorder
import Mustache.Template

/-!
# Clients of a storage

Whoever is handed a storage can do nothing with it but read, and go on with the answer.  So what is
done with a storage is a *client*: a result, or a read and what is done for each answer.  A client
cannot tell a recorder from the storage behind it, and the recorder holds the reads that the client
makes there.  Loading is such a client, and so is compiling.

* `Client`                what is done with a storage; `Client.run`, `Client.calls`
* `Client.run_recorder`   a client and a recorder
* `loader`, `resolver`    `loadFrom` and `resolve` as clients
* `Template.maker`        `Template.makeArtifact` as a client
-/

namespace Mustache

/-- what is done with the help of a storage -/
inductive Client (α : Type) where
  | done (a : α)
  | read (name : Text) (encoding : Encoding) (next : Except ReadError Text → Client α)

section
variable {σ : Type} [Storage σ]

theorem Recorder.read_eq (r : Recorder σ) (name : Text) (encoding : Encoding) :
    Storage.read r name encoding = ((Storage.read r.inner name encoding).1,
      ⟨(Storage.read r.inner name encoding).2, r.calls ++ [⟨name, encoding⟩]⟩) := rfl

namespace Client
variable {α β : Type}

/-- the result, and the storage afterwards -/
def run : Client α → σ → α × σ
  | done a, s => (a, s)
  | read name encoding next, s =>
    (next (Storage.read s name encoding).1).run (Storage.read s name encoding).2

/-- the reads on the way to the result, in order -/
def calls : Client α → σ → List Call
  | done _, _ => []
  | read name encoding next, s => ⟨name, encoding⟩ ::
    (next (Storage.read s name encoding).1).calls (Storage.read s name encoding).2

/-- the same reads, with another result -/
def map (f : α → β) : Client α → Client β
  | done a => done (f a)
  | read name encoding next => read name encoding fun answer => (next answer).map f

theorem run_read {name : Text} {encoding : Encoding} {s s' : σ} {answer : Except ReadError Text}
    (h : Storage.read s name encoding = (answer, s')) (next : Except ReadError Text → Client α) :
    (read name encoding next).run s = (next answer).run s' := by
  rw [run, h]

theorem run_map (f : α → β) (p : Client α) (s : σ) :
    (p.map f).run s = (f (p.run s).1, (p.run s).2) := by
  induction p generalizing s with
  | done a => rfl
  | read name encoding next ih => exact ih _ _

/-- **No client can tell a recorder from the storage behind it**, and what the recorder writes down
are the client's reads. -/
theorem run_recorder (p : Client α) (r : Recorder σ) :
    p.run r = ((p.run r.inner).1, ⟨(p.run r.inner).2, r.calls ++ p.calls r.inner⟩) := by
  induction p generalizing r with
  | done a => rw [calls, List.append_nil]; rfl
  | read name encoding next ih =>
    rw [run_read (Recorder.read_eq r name encoding), ih, calls, List.append_assoc]
    rfl

end Client
end

/-! ## loading and compiling -/

/-- loading, as it is done with any storage -/
def loader (limit : Nat) (table : PartialTable) (queue : List Text) :
    Client (Except ResolveError PartialTable) :=
  match queue with
  | [] => .done (.ok table)
  | name :: rest => .read name .utf8 fun answer =>
    match answer with
    | .error e => .done (.error (.unreadable name e))
    | .ok source =>
      match parse source with
      | .error e => .done (.error (.unparsable name e))
      | .ok tree =>
        let table' := table.add ⟨name, source, tree⟩
        match _h : discover limit table'.names rest tree.references with
        | .error e => .done (.error e)
        | .ok queue' => loader limit table' queue'
termination_by limit - (table.size + queue.length) + queue.length
decreasing_by
  have h := room_discover _h
  simp only [table', PartialTable.length_names, PartialTable.size_add] at h ⊢
  rw [List.length_cons]
  omega

def resolver (limit : Nat) (t : Tree) : Client (Except ResolveError PartialTable) :=
  match discover limit [] [] t.references with
  | .error e => .done (.error e)
  | .ok queue => loader limit .empty queue

/-- what is made of the table when the tree is there -/
def Template.finish (tree : Tree) : Except ResolveError PartialTable → Except TemplateError Artifact
  | .error e => .error (.resolve e)
  | .ok table => .ok ⟨tree, table⟩

def Template.maker (t : Template) : Client (Except TemplateError Artifact) :=
  match parse t.source with
  | .error e => .done (.error (.parse e))
  | .ok tree => (resolver t.options.maxPartials tree).map (finish tree)

section
variable {σ : Type} [Storage σ]

theorem run_loader (limit : Nat) (table : PartialTable) (queue : List Text) (s : σ) :
    (loader limit table queue).run s = loadFrom limit table queue s := by
  fun_induction loadFrom limit table queue s with
  | case1 table s => rw [loader]; rfl
  | case2 table s name rest e s₁ hread => rw [loader, Client.run_read hread]; rfl
  | case3 table s name rest source s₁ hread e hparse =>
    rw [loader, Client.run_read hread]
    simp only [hparse]
    rfl
  | case4 table s name rest source s₁ hread tree hparse table₁ e hdisc =>
    rw [loader, Client.run_read hread]
    simp only [hparse]
    split
    · next e' he =>
      obtain rfl := Except.error.inj (hdisc.symm.trans he)
      rfl
    · next queue' hqueue => cases hdisc.symm.trans hqueue
  | case5 table s name rest source s₁ hread tree hparse table₁ queue' hdisc ih =>
    rw [loader, Client.run_read hread]
    simp only [hparse]
    split
    · next e he => cases hdisc.symm.trans he
    · next queue'' hqueue =>
      obtain rfl := Except.ok.inj (hdisc.symm.trans hqueue)
      exact ih

theorem run_resolver (limit : Nat) (t : Tree) (s : σ) :
    (resolver limit t).run s = resolve limit t s := by
  unfold resolver resolve
  cases discover limit [] [] t.references with
  | error e => rfl
  | ok queue => exact run_loader limit .empty queue s

theorem Template.run_maker (t : Template) (s : σ) : t.maker.run s = t.makeArtifact s := by
  unfold maker makeArtifact
  cases parse t.source with
  | error e => rfl
  | ok tree =>
    simp only [Client.run_map, run_resolver]
    rcases resolve t.options.maxPartials tree s with ⟨e | table, s'⟩
    · rfl
    · rfl

end
end Mustache
