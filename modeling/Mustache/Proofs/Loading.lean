import Mathlib.Data.List.Nodup
import Mathlib.Logic.Relation
import Mustache.Proofs.Client
import Mustache.Storage.Scripted

/-!
# What is loaded

A tree is given, and the trees of the names it refers to are found out by reading.  Here it is
shown which names `resolve` reads, and in which order, when it succeeds.

* `Storage.readEach`  reads made one after the other
* `Reached`           the names a tree needs, directly or through other trees
* `Loading`           table, queue and storage between two reads; `Step` loads one more name
* `Loading.exists_ends`, `Loading.loadFrom_of_run`   loading is a run of steps with an end
* `Loading.Sound`     the invariant: table and queue against the references met so far
* `Loaded`            a table with all that a tree needs
* `resolve_loaded`    what `resolve` gives is `Loaded`, and nothing else was read

The names of the table solve an equation: they are the first occurrences among the references of
the tree and of the trees in the table.  Between two reads the table is a part of the solution and
the queue is the rest that is known, so the equation holds with both on the left.
-/

/-! ## first occurrences -/

namespace List
variable {α : Type} [BEq α] [LawfulBEq α]

theorem eraseDups_of_nodup {l : List α} (h : l.Nodup) : l.eraseDups = l := by
  induction l with
  | nil => rfl
  | cons a l ih =>
    obtain ⟨ha, hl⟩ := List.nodup_cons.1 h
    have hf : l.filter (fun b => !b == a) = l := by
      refine List.filter_eq_self.2 fun b hb => ?_
      have hne : b ≠ a := fun e => ha (e ▸ hb)
      simpa using hne
    rw [List.eraseDups_cons, hf, ih hl]

theorem nodup_eraseDups (l : List α) : l.eraseDups.Nodup := by
  cases l with
  | nil => exact List.nodup_nil
  | cons a l =>
    rw [List.eraseDups_cons, List.nodup_cons]
    refine ⟨fun h => ?_, nodup_eraseDups _⟩
    simpa using List.mem_eraseDups.1 h
termination_by l.length
decreasing_by
  have h := List.length_filter_le (fun b => !b == a) l
  simp only [List.length_cons]
  omega

theorem removeAll_eraseDups (l m : List α) : m.removeAll l.eraseDups = m.removeAll l := by
  refine List.filter_congr fun a _ => ?_
  have h : l.eraseDups.elem a = l.elem a := by
    rw [Bool.eq_iff_iff, List.elem_iff, List.elem_iff, List.mem_eraseDups]
  rw [h]

/-- what stands behind is judged by the same elements in front -/
theorem eraseDups_eraseDups_append (l m : List α) :
    (l.eraseDups ++ m).eraseDups = (l ++ m).eraseDups := by
  rw [List.eraseDups_append, List.eraseDups_append, removeAll_eraseDups,
    eraseDups_of_nodup (nodup_eraseDups l)]

theorem eraseDups_append_cons_of_mem {l m : List α} {a : α} (h : a ∈ l) :
    (l ++ a :: m).eraseDups = (l ++ m).eraseDups := by
  have hc : (a :: m).removeAll l = m.removeAll l :=
    List.filter_cons_of_neg (by simpa using h)
  rw [List.eraseDups_append, List.eraseDups_append, hc]

end List

namespace Mustache

/-! ## the queue -/

theorem nodup_snoc {loaded queue : List Text} {name : Text}
    (hnew : ¬(name ∈ loaded ∨ name ∈ queue)) (hn : (loaded ++ queue).Nodup) :
    (loaded ++ (queue ++ [name])).Nodup := by
  rw [← List.append_assoc]
  refine List.nodup_append.2 ⟨hn, List.nodup_singleton _, ?_⟩
  rintro a ha b hb rfl
  obtain rfl := List.mem_singleton.1 hb
  exact hnew (List.mem_append.1 ha)

/-- seen names, and then the new ones in the order in which they are met -/
theorem discover_ok {limit : Nat} {loaded queue names queue' : List Text}
    (h : discover limit loaded queue names = .ok queue') (hn : (loaded ++ queue).Nodup) :
    loaded ++ queue' = (loaded ++ queue ++ names).eraseDups := by
  fun_induction discover limit loaded queue names with
  | case1 =>
    cases h
    rw [List.append_nil, List.eraseDups_of_nodup hn]
  | case2 queue name names hmem ih =>
    rw [ih h hn, List.eraseDups_append_cons_of_mem (List.mem_append.2 hmem)]
  | case3 => cases h
  | case4 queue name names hmem hroom ih =>
    rw [ih h (nodup_snoc hmem hn)]
    simp

section
variable {σ : Type} [Storage σ]

/-- the answers to reads made one after the other, and the storage after them -/
def Storage.readEach (s : σ) : List Text → List (Except ReadError Text) × σ
  | [] => ([], s)
  | name :: names =>
    let (answer, s') := Storage.read s name .utf8
    let (answers, s'') := readEach s' names
    (answer :: answers, s'')

theorem Storage.readEach_append (s : σ) (a b : List Text) :
    Storage.readEach s (a ++ b) =
      ((readEach s a).1 ++ (readEach (readEach s a).2 b).1, (readEach (readEach s a).2 b).2) := by
  induction a generalizing s with
  | nil => rfl
  | cons name a ih => simp only [List.cons_append, readEach, ih]

/-- a client does nothing to the storage but read -/
theorem Client.run_snd {α : Type} (p : Client α) (s : σ) :
    (p.run s).2 = (Storage.readEach s ((p.calls s).map Call.name)).2 := by
  induction p generalizing s with
  | done a => rfl
  | read name encoding next ih => exact ih _ _

/-! ## the loop -/

theorem loadFrom_cons (limit : Nat) (table : PartialTable) (name : Text) (rest : List Text)
    (s : σ) :
    loadFrom limit table (name :: rest) s =
      match Storage.read s name .utf8 with
      | (.error e, s') => (.error (.unreadable name e), s')
      | (.ok source, s') =>
        match parse source with
        | .error e => (.error (.unparsable name e), s')
        | .ok tree =>
          match discover limit (table.add ⟨name, source, tree⟩).names rest tree.references with
          | .error e => (.error e, s')
          | .ok queue' => loadFrom limit (table.add ⟨name, source, tree⟩) queue' s' := by
  rw [loadFrom]
  rcases Storage.read s name .utf8 with ⟨e | source, s'⟩
  · rfl
  · cases hparse : parse source with
    | error e => simp only [hparse]
    | ok tree =>
      simp only [hparse]
      split <;> next h => rw [h]

/-- what is at hand between two reads -/
structure Loading (σ : Type) where
  table : PartialTable
  queue : List Text
  storage : σ

namespace Loading

/-- the first name of the queue is read, parsed and looked through -/
inductive Step (limit : Nat) : Loading σ → Loading σ → Prop where
  | load {table : PartialTable} {name source : Text} {rest queue' : List Text} {tree : Tree}
      {s s' : σ} :
      Storage.read s name .utf8 = (.ok source, s') → parse source = .ok tree →
      discover limit (table.add ⟨name, source, tree⟩).names rest tree.references = .ok queue' →
      Step limit ⟨table, name :: rest, s⟩ ⟨table.add ⟨name, source, tree⟩, queue', s'⟩

/-- how loading ends: with an empty queue, or at the first name of the queue -/
inductive Ends (limit : Nat) : Loading σ → Except ResolveError PartialTable × σ → Prop where
  | done {table : PartialTable} {s : σ} : Ends limit ⟨table, [], s⟩ (.ok table, s)
  | unreadable {table : PartialTable} {name : Text} {rest : List Text} {s s' : σ}
      {e : ReadError} : Storage.read s name .utf8 = (.error e, s') →
      Ends limit ⟨table, name :: rest, s⟩ (.error (.unreadable name e), s')
  | unparsable {table : PartialTable} {name source : Text} {rest : List Text} {s s' : σ}
      {e : ParseError} : Storage.read s name .utf8 = (.ok source, s') → parse source = .error e →
      Ends limit ⟨table, name :: rest, s⟩ (.error (.unparsable name e), s')
  | tooMany {table : PartialTable} {name source : Text} {rest : List Text} {tree : Tree}
      {s s' : σ} {e : ResolveError} :
      Storage.read s name .utf8 = (.ok source, s') → parse source = .ok tree →
      discover limit (table.add ⟨name, source, tree⟩).names rest tree.references = .error e →
      Ends limit ⟨table, name :: rest, s⟩ (.error e, s')

/-- loading is a run of steps and then one end -/
theorem exists_ends (limit : Nat) (table : PartialTable) (queue : List Text) (s : σ) :
    ∃ l : Loading σ, Relation.ReflTransGen (Step limit) ⟨table, queue, s⟩ l ∧
      l.Ends limit (loadFrom limit table queue s) := by
  fun_induction loadFrom limit table queue s with
  | case1 table s => exact ⟨_, .refl, .done⟩
  | case2 table s name rest e s₁ hread => exact ⟨_, .refl, .unreadable hread⟩
  | case3 table s name rest source s₁ hread e hparse =>
    exact ⟨_, .refl, .unparsable hread hparse⟩
  | case4 table s name rest source s₁ hread tree hparse table₁ e hdisc =>
    exact ⟨_, .refl, .tooMany hread hparse hdisc⟩
  | case5 table s name rest source s₁ hread tree hparse table₁ queue' hdisc ih =>
    obtain ⟨l, hrun, hend⟩ := ih
    exact ⟨l, .head (.load hread hparse hdisc) hrun, hend⟩

variable {limit : Nat} {l l' : Loading σ}

theorem Step.loadFrom_eq (h : Step limit l l') :
    loadFrom limit l.table l.queue l.storage = loadFrom limit l'.table l'.queue l'.storage := by
  cases h with
  | load hread hparse hdisc => simp only [loadFrom_cons, hread, hparse, hdisc]

theorem Ends.loadFrom_eq {out : Except ResolveError PartialTable × σ} (h : l.Ends limit out) :
    loadFrom limit l.table l.queue l.storage = out := by
  cases h with
  | done => rw [loadFrom]
  | unreadable hread => simp only [loadFrom_cons, hread]
  | unparsable hread hparse => simp only [loadFrom_cons, hread, hparse]
  | tooMany hread hparse hdisc => simp only [loadFrom_cons, hread, hparse, hdisc]

/-- steps from here and an end after them give the result of loading -/
theorem loadFrom_of_run {out : Except ResolveError PartialTable × σ}
    (hrun : Relation.ReflTransGen (Step limit) l l') (hend : l'.Ends limit out) :
    loadFrom limit l.table l.queue l.storage = out := by
  induction hrun using Relation.ReflTransGen.head_induction_on with
  | refl => exact hend.loadFrom_eq
  | head hstep _ ih => exact hstep.loadFrom_eq.trans ih

end Loading

/-! ## the invariant -/

/-- the names a tree needs: those it refers to, and those that the tree of a needed name refers to;
`sub` gives the trees of the names -/
inductive Reached (sub : Text → Option Tree) (t : Tree) : Text → Prop where
  | root {name : Text} : name ∈ t.references → Reached sub t name
  | step {name next : Text} {u : Tree} :
      Reached sub t name → sub name = some u → next ∈ u.references → Reached sub t next

theorem Reached.mono {sub sub' : Text → Option Tree} {t : Tree} {name : Text}
    (hs : ∀ name u, sub name = some u → sub' name = some u) (h : Reached sub t name) :
    Reached sub' t name := by
  induction h with
  | root h => exact .root h
  | step _ hu hmem ih => exact .step ih (hs _ _ hu) hmem

/-- the invariant of loading for the tree `t`, begun in the storage `s₀` -/
structure Loading.Sound (t : Tree) (s₀ : σ) (l : Loading σ) : Prop where
  met : l.table.names ++ l.queue =
    (t.references ++ l.table.partials.flatMap (·.tree.references)).eraseDups
  readEach_eq : Storage.readEach s₀ l.table.names =
    (l.table.partials.map fun p => .ok p.source, l.storage)
  parsed (p : Partial) (h : p ∈ l.table.partials) : parse p.source = .ok p.tree
  reached (name : Text) (h : name ∈ l.table.names ++ l.queue) : Reached l.table.tree? t name

namespace Loading.Sound
variable {t : Tree} {s₀ : σ} {l l' : Loading σ} {limit : Nat}

theorem nodup (h : l.Sound t s₀) : (l.table.names ++ l.queue).Nodup := by
  rw [h.met]
  exact List.nodup_eraseDups _

theorem nodup_names (h : l.Sound t s₀) : l.table.names.Nodup := (List.nodup_append.1 h.nodup).1

theorem start {queue : List Text} (h : discover limit [] [] t.references = .ok queue) :
    Sound t s₀ ⟨.empty, queue, s₀⟩ := by
  have hq : queue = t.references.eraseDups := discover_ok h List.nodup_nil
  refine ⟨?_, rfl, by simp [PartialTable.empty], ?_⟩
  · simpa [PartialTable.empty, PartialTable.names] using hq
  · intro name hname
    rw [PartialTable.names_empty, List.nil_append, hq, List.mem_eraseDups] at hname
    exact .root hname

theorem step (h : l.Sound t s₀) (hs : Step limit l l') : l'.Sound t s₀ := by
  cases hs with
  | @load table name source rest queue' tree s s' hread hparse hdisc =>
    obtain ⟨hmet, hreads, hparsed, hreached⟩ := h
    have hnames : (table.add ⟨name, source, tree⟩).names ++ rest = table.names ++ name :: rest := by
      rw [PartialTable.names_add, List.append_assoc, List.singleton_append]
    have hnodup : ((table.add ⟨name, source, tree⟩).names ++ rest).Nodup := by
      rw [hnames, hmet]
      exact List.nodup_eraseDups _
    have hseen := discover_ok hdisc hnodup
    rw [hnames] at hseen
    have hfind : (table.add ⟨name, source, tree⟩).tree? name = some tree :=
      PartialTable.tree?_of_mem (p := ⟨name, source, tree⟩) (List.nodup_append.1 hnodup).1
        (by simp [PartialTable.add])
    have hold : ∀ next ∈ table.names ++ name :: rest,
        Reached (table.add ⟨name, source, tree⟩).tree? t next := fun next hnext =>
      (hreached next hnext).mono fun _ _ => PartialTable.tree?_add_of_eq_some _
    refine ⟨?_, ?_, ?_, ?_⟩
    · rw [hseen, hmet, List.eraseDups_eraseDups_append]
      simp [PartialTable.add]
    · rw [PartialTable.names_add, Storage.readEach_append, hreads]
      simp [Storage.readEach, hread, PartialTable.add]
    · intro p hp
      rcases List.mem_append.1 hp with hp | hp
      · exact hparsed p hp
      · obtain rfl := List.mem_singleton.1 hp
        exact hparse
    · intro next hnext
      rw [hseen, List.mem_eraseDups] at hnext
      rcases List.mem_append.1 hnext with hnext | hnext
      · exact hold next hnext
      · exact .step (hold name (by simp)) hfind hnext

theorem run (h : l.Sound t s₀) (hr : Relation.ReflTransGen (Step limit) l l') : l'.Sound t s₀ := by
  induction hr with
  | refl => exact h
  | tail _ hs ih => exact ih.step hs

end Loading.Sound

/-! ## reading through a recorder -/

theorem Recorder.readEach_eq (r : Recorder σ) (names : List Text) :
    Storage.readEach r names = ((Storage.readEach r.inner names).1,
      ⟨(Storage.readEach r.inner names).2, r.calls ++ names.map (⟨·, .utf8⟩)⟩) := by
  induction names generalizing r with
  | nil => simp [Storage.readEach]
  | cons name names ih => simp [Storage.readEach, Recorder.read_eq, ih]

/-- a recorder holds the names of the table, behind what it held at the start -/
theorem Loading.Sound.calls_eq {t : Tree} {r : Recorder σ} {l : Loading (Recorder σ)}
    (h : l.Sound t r) : l.storage.calls = r.calls ++ l.table.names.map (⟨·, .utf8⟩) := by
  have hreads := congrArg (·.2.calls) h.readEach_eq
  rw [Recorder.readEach_eq] at hreads
  exact hreads.symm

/-- the end is the read of the first name in the queue, if there is one -/
theorem Loading.Ends.calls_eq {limit : Nat} {l : Loading (Recorder σ)}
    {result : Except ResolveError PartialTable} {r : Recorder σ} (h : l.Ends limit (result, r)) :
    r.calls = l.storage.calls ++ (l.queue.take 1).map (⟨·, .utf8⟩) := by
  have hread : ∀ {name : Text} {rest : List Text} {answer : Except ReadError Text},
      Storage.read l.storage name .utf8 = (answer, r) →
      r.calls = l.storage.calls ++ ((name :: rest).take 1).map (⟨·, .utf8⟩) := by
    intro name rest answer hans
    rw [Recorder.read_eq] at hans
    obtain ⟨-, rfl⟩ := Prod.mk.inj hans
    rfl
  cases h with
  | done => exact (List.append_nil _).symm
  | unreadable hans => exact hread hans
  | unparsable hans _ => exact hread hans
  | tooMany hans _ _ => exact hread hans

/-! ## the table -/

/-- A table with all that the tree `t` needs, read from `s`, which the reads turn into `s'`. -/
structure Loaded (t : Tree) (s : σ) (table : PartialTable) (s' : σ) : Prop where
  nodup : table.names.Nodup
  /-- the names in the order in which they are met, the tree first and then tree after tree -/
  names_eq : table.names = (t.references ++
    table.names.flatMap fun name => ((table.tree? name).getD []).references).eraseDups
  mem_names_iff (name : Text) : name ∈ table.names ↔ Reached table.tree? t name
  /-- the texts are the answers to one read of each name, in order -/
  readEach_eq : Storage.readEach s table.names =
    (table.names.map fun name => .ok ((table.source? name).getD []), s')
  parse_source (name : Text) (h : name ∈ table.names) : ∃ source tree,
    table.source? name = some source ∧ parse source = .ok tree ∧ table.tree? name = some tree
  none_of_not_mem (name : Text) (h : name ∉ table.names) :
    table.source? name = none ∧ table.tree? name = none
  references_subset : t.references ⊆ table.names
  closed (name : Text) (u : Tree) (h : table.tree? name = some u) : u.references ⊆ table.names

theorem resolve_sound {limit : Nat} {t : Tree} {s s' : σ} {table : PartialTable}
    (h : resolve limit t s = (.ok table, s')) : Loading.Sound t s ⟨table, [], s'⟩ := by
  unfold resolve at h
  split at h
  · cases h
  · next queue hdisc =>
    obtain ⟨l, hrun, hend⟩ := Loading.exists_ends limit .empty queue s
    rw [h] at hend
    cases hend with
    | done => exact (Loading.Sound.start hdisc).run hrun

/-- with an empty queue the table solves the equation of first occurrences -/
theorem Loading.Sound.loaded {t : Tree} {s s' : σ} {table : PartialTable}
    (h : Loading.Sound t s ⟨table, [], s'⟩) : Loaded t s table s' := by
  have hnodup : table.names.Nodup := h.nodup_names
  have hmet : table.names =
      (t.references ++ table.partials.flatMap (·.tree.references)).eraseDups := by
    simpa using h.met
  have hroot : t.references ⊆ table.names := by
    intro name hname
    rw [hmet, List.mem_eraseDups]
    exact List.mem_append_left _ hname
  have hclosed : ∀ name u, table.tree? name = some u → u.references ⊆ table.names := by
    intro name u hu next hnext
    obtain ⟨p, hp, -, rfl⟩ := PartialTable.exists_of_tree?_eq_some hu
    rw [hmet, List.mem_eraseDups]
    exact List.mem_append_right _ (List.mem_flatMap.2 ⟨p, hp, hnext⟩)
  have htrees : table.names.flatMap (fun name => ((table.tree? name).getD []).references) =
      table.partials.flatMap (·.tree.references) := by
    rw [PartialTable.names, List.flatMap_map]
    refine List.flatMap_congr fun p hp => ?_
    rw [PartialTable.tree?_of_mem hnodup hp]
    rfl
  constructor
  case nodup => exact hnodup
  case names_eq =>
    rw [htrees]
    exact hmet
  case mem_names_iff =>
    refine fun name => ⟨fun hname => h.reached name (by simpa using hname), fun hname => ?_⟩
    induction hname with
    | root h => exact hroot h
    | step _ hu hnext _ => exact hclosed _ _ hu hnext
  case readEach_eq =>
    rw [h.readEach_eq, PartialTable.names, List.map_map]
    refine Prod.ext (List.map_congr_left fun p hp => ?_) rfl
    simp [PartialTable.source?_of_mem hnodup hp]
  case parse_source =>
    intro name hname
    obtain ⟨p, hp, rfl⟩ := List.mem_map.1 hname
    exact ⟨p.source, p.tree, PartialTable.source?_of_mem hnodup hp, h.parsed p hp,
      PartialTable.tree?_of_mem hnodup hp⟩
  case none_of_not_mem =>
    intro name hname
    have hnone := PartialTable.find?_eq_none_iff.2 hname
    simp [PartialTable.source?, PartialTable.tree?, hnone]
  case references_subset => exact hroot
  case closed => exact hclosed

theorem resolve_recorder (limit : Nat) (t : Tree) (s : σ) (calls : List Call) :
    (resolve limit t (⟨s, calls⟩ : Recorder σ)).1 = (resolve limit t s).1 ∧
      (resolve limit t (⟨s, calls⟩ : Recorder σ)).2.inner = (resolve limit t s).2 := by
  have hrun := (resolver limit t).run_recorder ⟨s, calls⟩
  rw [run_resolver, run_resolver] at hrun
  rw [hrun]
  exact ⟨rfl, rfl⟩

/-- **The table holds exactly what the tree needs, each name read once, in the order of first
mention.**  A recorder in front of the storage writes down these reads and no other. -/
theorem resolve_loaded {limit : Nat} {t : Tree} {s s' : σ} {table : PartialTable}
    (h : resolve limit t s = (.ok table, s')) :
    Loaded t s table s' ∧
      resolve limit t (Recorder.ofStorage s) =
        (.ok table, ⟨s', table.names.map (⟨·, .utf8⟩)⟩) := by
  refine ⟨(resolve_sound h).loaded, ?_⟩
  obtain ⟨htable, hinner⟩ := resolve_recorder limit t s []
  rw [h] at htable hinner
  generalize hr : resolve limit t (⟨s, []⟩ : Recorder σ) = out at htable hinner
  obtain ⟨result, r⟩ := out
  obtain rfl : result = .ok table := htable
  have hcalls : r.calls = table.names.map (⟨·, .utf8⟩) := by
    have hreads := congrArg (·.2.calls) (resolve_sound hr).readEach_eq
    simpa [Recorder.readEach_eq] using hreads.symm
  rw [Recorder.ofStorage, hr, ← hcalls]
  exact congrArg (fun s => (Except.ok table, (⟨s, r.calls⟩ : Recorder σ))) hinner

/-- two templates that refer to each other and one to itself, and a third one in a block; a second
read of `b` would fail -/
def cyclicScript : ScriptedStorage :=
  ⟨[("a".toList, [.text "{{> b}}{{> a}}".toList]),
    ("b".toList, [.text "{{#x}}{{> c}}{{/x}}{{> a}}".toList, .missing])], .text "c".toList⟩

theorem resolve_loaded_cycle :
    ∃ table s', resolve 3 [.inclusion "b".toList none] cyclicScript = (.ok table, s') ∧
      table.names = ["b".toList, "c".toList, "a".toList] ∧
      Loaded [.inclusion "b".toList none] cyclicScript table s' ∧
      resolve 3 [.inclusion "b".toList none] (Recorder.ofStorage cyclicScript) =
        (.ok table, ⟨s', table.names.map (⟨·, .utf8⟩)⟩) := by
  have hb : parse "{{#x}}{{> c}}{{/x}}{{> a}}".toList =
      .ok [.block (.dotted "x".toList []) false [.inclusion "c".toList none],
        .inclusion "a".toList none] := parse_eq_ok_iff.2 (by with_unfolding_all rfl)
  have hc : parse "c".toList = .ok [.text "c".toList] :=
    parse_eq_ok_iff.2 (by with_unfolding_all rfl)
  have ha : parse "{{> b}}{{> a}}".toList =
      .ok [.inclusion "b".toList none, .inclusion "a".toList none] :=
    parse_eq_ok_iff.2 (by with_unfolding_all rfl)
  -- the first read takes the first response of `b` away
  have hreadb : Storage.read cyclicScript "b".toList .utf8 =
      (.ok "{{#x}}{{> c}}{{/x}}{{> a}}".toList, cyclicScript.advance "b".toList) := by
    with_unfolding_all rfl
  have hreadc : Storage.read (cyclicScript.advance "b".toList) "c".toList .utf8 =
      (.ok "c".toList, cyclicScript.advance "b".toList) := by with_unfolding_all rfl
  have hreada : Storage.read (cyclicScript.advance "b".toList) "a".toList .utf8 =
      (.ok "{{> b}}{{> a}}".toList, cyclicScript.advance "b".toList) := by with_unfolding_all rfl
  have hrun : Relation.ReflTransGen (Loading.Step 3) ⟨.empty, ["b".toList], cyclicScript⟩ _ :=
    .head (.load hreadb hb rfl) <| .head (.load hreadc hc rfl) <| .single (.load hreada ha rfl)
  have h := Loading.loadFrom_of_run hrun .done
  exact ⟨_, _, h, rfl, resolve_loaded h⟩

end
end Mustache
