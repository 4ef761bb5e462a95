import Mathlib.Data.Set.Card
import Mustache.Proofs.Loading
import Mustache.Storage.Memory

/-!
# How loading ends

A storage is given whose answers never change.  Then the names a tree needs are there before
anything is read, and the outcome of `resolve` can be told from them: it succeeds exactly when they
are not too many and each of them can be read and parsed.  A failure names its cause.

* `Storage.Answers`     the storage gives these answers, and stays as it is
* `Loads`               a name can be read and parsed; `loadTree?` gives its tree
* `FirstMet`            the first names, in the order in which they are met
* `Loading.Steady`      the invariant of loading from such a storage
* `Fails`               a failure, told from the names read up to it
* `resolve_outcome`     when loading succeeds, and how it fails
-/

namespace Mustache

/-! ## answers that never change -/

/-- the storage gives the answers `f` and stays as it is -/
def Storage.Answers {σ : Type} [Storage σ] (s : σ) (f : Text → Except ReadError Text) : Prop :=
  ∀ name, Storage.read s name .utf8 = (f name, s)

theorem MemoryStorage.answers (m : MemoryStorage) :
    Storage.Answers m fun name =>
      match m.text? name with
      | some t => .ok t
      | none => .error (.notFound name) := by
  intro name
  cases h : m.text? name <;> simp [Storage.read, h]

theorem Storage.Answers.readEach_eq {σ : Type} [Storage σ] {s : σ}
    {f : Text → Except ReadError Text} (hs : Answers s f) (names : List Text) :
    readEach s names = (names.map f, s) := by
  induction names with
  | nil => rfl
  | cons name names ih => simp only [readEach, hs name, ih, List.map_cons]

variable {f : Text → Except ReadError Text}

/-- the name can be read and parsed -/
def Loads (f : Text → Except ReadError Text) (name : Text) : Prop :=
  ∃ source tree, f name = .ok source ∧ parse source = .ok tree

/-- the tree of a name that can be read and parsed -/
def loadTree? (f : Text → Except ReadError Text) (name : Text) : Option Tree :=
  match f name with
  | .error _ => none
  | .ok source =>
    match parse source with
    | .error _ => none
    | .ok tree => some tree

theorem loadTree?_of_parse {name source : Text} {tree : Tree} (hread : f name = .ok source)
    (hparse : parse source = .ok tree) : loadTree? f name = some tree := by
  simp only [loadTree?, hread, hparse]

/-! ## the order of names -/

/-- the names met in a tree and in the trees of some names, each at its first place -/
def met (sub : Text → Option Tree) (t : Tree) (names : List Text) : List Text :=
  (t.references ++ names.flatMap fun name => ((sub name).getD []).references).eraseDups

/-- The first names in the order in which they are met: each is the next one among those met in the
tree and in the trees of the names before it. -/
inductive FirstMet (sub : Text → Option Tree) (t : Tree) : List Text → Prop where
  | nil : FirstMet sub t []
  | next {names : List Text} {name : Text} :
      FirstMet sub t names → names ++ [name] <+: met sub t names →
      FirstMet sub t (names ++ [name])

section
variable {sub : Text → Option Tree} {t : Tree} {names : List Text}

theorem nodup_met : (met sub t names).Nodup := List.nodup_eraseDups _

theorem references_subset_met : t.references ⊆ met sub t names := by
  intro name hname
  rw [met, List.mem_eraseDups]
  exact List.mem_append_left _ hname

theorem mem_met_of_references {name next : Text} {u : Tree} (hname : name ∈ names)
    (hsub : sub name = some u) (hnext : next ∈ u.references) : next ∈ met sub t names := by
  rw [met, List.mem_eraseDups]
  refine List.mem_append_right _ (List.mem_flatMap.2 ⟨name, hname, ?_⟩)
  rw [hsub]
  exact hnext

theorem reached_of_mem_met (h : ∀ name ∈ names, Reached sub t name) {name : Text}
    (hname : name ∈ met sub t names) : Reached sub t name := by
  rw [met, List.mem_eraseDups, List.mem_append, List.mem_flatMap] at hname
  rcases hname with hroot | ⟨before, hbefore, hin⟩
  · exact .root hroot
  · cases hsub : sub before with
    | none => simp [hsub, Tree.references_nil] at hin
    | some u =>
      rw [hsub] at hin
      exact .step (h before hbefore) hsub hin

theorem met_snoc {name : Text} {u : Tree} (hsub : sub name = some u) :
    met sub t (names ++ [name]) = (met sub t names ++ u.references).eraseDups := by
  rw [met, met, List.eraseDups_eraseDups_append, List.flatMap_append, List.flatMap_singleton, hsub,
    List.append_assoc]
  rfl

theorem FirstMet.reached (h : FirstMet sub t names) : ∀ name ∈ names, Reached sub t name := by
  induction h with
  | nil => exact fun name hname => absurd hname List.not_mem_nil
  | next _ hpre ih => exact fun name hname => reached_of_mem_met ih (hpre.mem hname)

/-- the first names met are all there are if no other name is met in their trees -/
theorem FirstMet.reached_iff (h : FirstMet sub t names) (hall : met sub t names = names)
    {name : Text} : Reached sub t name ↔ name ∈ names := by
  refine ⟨fun hname => ?_, h.reached name⟩
  rw [← hall]
  induction hname with
  | root hmem => exact references_subset_met hmem
  | step _ hsub hnext ih => exact mem_met_of_references (hall ▸ ih) hsub hnext

end

theorem encard_setOf_mem {names : List Text} (h : names.Nodup) :
    {name | name ∈ names}.encard = names.length := by
  have hset : {name | name ∈ names} = (names.toFinset : Set Text) := by
    ext name
    simp
  rw [hset, Set.encard_coe_eq_coe_finsetCard, List.toFinset_card_of_nodup h]

/-! ## the limit -/

/-- the limit is kept while names are discovered -/
theorem length_discover_le {limit : Nat} {loaded queue names queue' : List Text}
    (h : discover limit loaded queue names = .ok queue')
    (hle : (loaded ++ queue).length ≤ limit) : (loaded ++ queue').length ≤ limit := by
  fun_induction discover limit loaded queue names with
  | case1 =>
    cases h
    exact hle
  | case2 queue name names _ ih => exact ih h hle
  | case3 => cases h
  | case4 queue name names _ hroom ih =>
    refine ih h ?_
    simp only [List.length_append, List.length_singleton] at hle ⊢
    omega

/-- discovering fails at one distinct name too many -/
theorem discover_error {limit : Nat} {loaded queue names : List Text} {e : ResolveError}
    (h : discover limit loaded queue names = .error e) (hn : (loaded ++ queue).Nodup) :
    e = .tooMany limit ∧ limit < (loaded ++ queue ++ names).eraseDups.length := by
  fun_induction discover limit loaded queue names with
  | case1 => cases h
  | case2 queue name names hmem ih =>
    rw [List.eraseDups_append_cons_of_mem (List.mem_append.2 hmem)]
    exact ih h hn
  | case3 queue name names hmem hfull =>
    cases h
    refine ⟨rfl, ?_⟩
    have hsplit : loaded ++ queue ++ name :: names = loaded ++ (queue ++ [name]) ++ names := by
      simp only [List.append_assoc, List.singleton_append]
    rw [hsplit, List.eraseDups_append, List.eraseDups_of_nodup (nodup_snoc hmem hn)]
    simp only [List.length_append, List.length_singleton]
    omega
  | case4 queue name names hmem _ ih =>
    obtain ⟨he, hlt⟩ := ih h (nodup_snoc hmem hn)
    refine ⟨he, ?_⟩
    simpa only [List.append_assoc, List.singleton_append] using hlt

section
variable {σ : Type} [Storage σ]

/-- the limit is kept by the names in the table and in the queue together -/
theorem Loading.Step.length_le {limit : Nat} {l l' : Loading σ} (hstep : Step limit l l')
    (h : (l.table.names ++ l.queue).length ≤ limit) :
    (l'.table.names ++ l'.queue).length ≤ limit := by
  cases hstep with
  | load _ _ hdisc =>
    refine length_discover_le hdisc ?_
    simpa [PartialTable.names_add] using h

/-! ## the invariant -/

/-- the invariant of loading at most `limit` names for the tree `t`, through a recorder in front of
the storage `s` with the answers `f` -/
structure Loading.Steady (limit : Nat) (f : Text → Except ReadError Text) (t : Tree) (s : σ)
    (l : Loading (Recorder σ)) : Prop where
  sound : l.Sound t (Recorder.ofStorage s)
  firstMet : FirstMet (loadTree? f) t l.table.names
  length_le : (l.table.names ++ l.queue).length ≤ limit

namespace Loading.Steady
variable {limit : Nat} {t : Tree} {s : σ} {l l' : Loading (Recorder σ)}

theorem storage_eq (hs : Storage.Answers s f) (h : l.Steady limit f t s) :
    l.storage = ⟨s, l.table.names.map (⟨·, .utf8⟩)⟩ := by
  have hreads := congrArg Prod.snd h.sound.readEach_eq
  rw [Recorder.readEach_eq, Recorder.ofStorage, hs.readEach_eq] at hreads
  exact hreads.symm

theorem parsed (hs : Storage.Answers s f) (h : l.Steady limit f t s) {p : Partial}
    (hp : p ∈ l.table.partials) : f p.name = .ok p.source ∧ parse p.source = .ok p.tree := by
  have hreads := congrArg Prod.fst h.sound.readEach_eq
  rw [Recorder.readEach_eq, Recorder.ofStorage, hs.readEach_eq, PartialTable.names,
    List.map_map] at hreads
  exact ⟨List.map_inj_left.1 hreads p hp, h.sound.parsed p hp⟩

theorem loads (hs : Storage.Answers s f) (h : l.Steady limit f t s) {name : Text}
    (hname : name ∈ l.table.names) : Loads f name := by
  obtain ⟨p, hp, rfl⟩ := List.mem_map.1 hname
  exact ⟨p.source, p.tree, h.parsed hs hp⟩

/-- table and queue hold the names met in the loaded trees -/
theorem met_eq (hs : Storage.Answers s f) (h : l.Steady limit f t s) :
    l.table.names ++ l.queue = met (loadTree? f) t l.table.names := by
  rw [h.sound.met, met, PartialTable.names, List.flatMap_map]
  congr 2
  refine List.flatMap_congr fun p hp => ?_
  obtain ⟨hread, hparse⟩ := h.parsed hs hp
  rw [loadTree?_of_parse hread hparse]
  rfl

/-- the name to be read next is the next one met -/
theorem firstMet_next (hs : Storage.Answers s f) (h : l.Steady limit f t s) {name : Text}
    {rest : List Text} (hqueue : l.queue = name :: rest) :
    FirstMet (loadTree? f) t (l.table.names ++ [name]) := by
  refine .next h.firstMet ?_
  rw [← h.met_eq hs, hqueue]
  exact ⟨rest, by rw [List.append_assoc]; rfl⟩

theorem start {queue : List Text} (h : discover limit [] [] t.references = .ok queue) :
    Steady limit f t s ⟨.empty, queue, Recorder.ofStorage s⟩ :=
  ⟨.start h, .nil, length_discover_le h (Nat.zero_le _)⟩

theorem step (hs : Storage.Answers s f) (h : l.Steady limit f t s) (hstep : Step limit l l') :
    l'.Steady limit f t s := by
  refine ⟨h.sound.step hstep, ?_, ?_⟩
  · cases hstep with
    | load _ _ _ =>
      rw [PartialTable.names_add]
      exact h.firstMet_next hs rfl
  · exact hstep.length_le h.length_le

theorem run (hs : Storage.Answers s f) (h : l.Steady limit f t s)
    (hr : Relation.ReflTransGen (Step limit) l l') : l'.Steady limit f t s := by
  induction hr with
  | refl => exact h
  | tail _ hstep ih => exact ih.step hs hstep

end Loading.Steady

/-! ## the end -/

/-- A failure after these names were read: the last one cannot be read, or not be parsed, or all of
them were parsed and one name too many is met in their trees. -/
inductive Fails (limit : Nat) (f : Text → Except ReadError Text) (t : Tree) :
    List Text → ResolveError → Prop where
  | unreadable {names : List Text} {name : Text} {e : ReadError} :
      (∀ before ∈ names, Loads f before) → f name = .error e →
      Fails limit f t (names ++ [name]) (.unreadable name e)
  | unparsable {names : List Text} {name source : Text} {e : ParseError} :
      (∀ before ∈ names, Loads f before) → f name = .ok source → parse source = .error e →
      Fails limit f t (names ++ [name]) (.unparsable name e)
  | tooMany {names : List Text} :
      (∀ name ∈ names, Loads f name) → limit < (met (loadTree? f) t names).length →
      Fails limit f t names (.tooMany limit)

variable {limit : Nat} {t : Tree} {s : σ}

theorem Loading.Steady.error_of_ends (hs : Storage.Answers s f) {l : Loading (Recorder σ)}
    {e : ResolveError} {r : Recorder σ} (h : l.Steady limit f t s)
    (hend : l.Ends limit (.error e, r)) : ∃ names,
      r = ⟨s, names.map (⟨·, .utf8⟩)⟩ ∧ FirstMet (loadTree? f) t names ∧
        Fails limit f t names e := by
  have hloads : ∀ before ∈ l.table.names, Loads f before := fun _ hmem => h.loads hs hmem
  -- the recorder behind the read of the next name, and the answer to it
  have hread : ∀ name, Storage.read l.storage name .utf8 =
      (f name, ⟨s, (l.table.names ++ [name]).map (⟨·, .utf8⟩)⟩) := by
    intro name
    rw [h.storage_eq hs, Recorder.read_eq, hs, List.map_append]
    rfl
  cases hend with
  | @unreadable table name rest s₁ s₂ e hans =>
    obtain ⟨hf, rfl⟩ := Prod.mk.inj ((hread name).symm.trans hans)
    exact ⟨_, rfl, h.firstMet_next hs rfl, .unreadable hloads hf⟩
  | @unparsable table name source rest s₁ s₂ e hans hparse =>
    obtain ⟨hf, rfl⟩ := Prod.mk.inj ((hread name).symm.trans hans)
    exact ⟨_, rfl, h.firstMet_next hs rfl, .unparsable hloads hf hparse⟩
  | @tooMany table name source rest tree s₁ s₂ e hans hparse hdisc =>
    obtain ⟨hf, rfl⟩ := Prod.mk.inj ((hread name).symm.trans hans)
    have hnames : (table.add ⟨name, source, tree⟩).names ++ rest = table.names ++ name :: rest := by
      rw [PartialTable.names_add, List.append_assoc, List.singleton_append]
    have hnodup := h.sound.nodup
    have hmet := h.met_eq hs
    obtain ⟨rfl, hlt⟩ := discover_error hdisc (hnames ▸ hnodup)
    rw [hnames, hmet, ← met_snoc (loadTree?_of_parse hf hparse)] at hlt
    refine ⟨_, rfl, h.firstMet_next hs rfl, .tooMany (fun before hbefore => ?_) hlt⟩
    rcases List.mem_append.1 hbefore with hbefore | hbefore
    · exact hloads before hbefore
    · obtain rfl := List.mem_singleton.1 hbefore
      exact ⟨source, tree, hf, hparse⟩

/-- what is left when loading succeeds: an empty queue -/
theorem steady_of_resolve (hs : Storage.Answers s f) {table : PartialTable} {r : Recorder σ}
    (h : resolve limit t (Recorder.ofStorage s) = (.ok table, r)) :
    Loading.Steady limit f t s ⟨table, [], r⟩ := by
  unfold resolve at h
  split at h
  · cases h
  · next queue hdisc =>
    obtain ⟨l, hrun, hend⟩ := Loading.exists_ends limit .empty queue (Recorder.ofStorage s)
    rw [h] at hend
    have hl : l.Steady limit f t s := (Loading.Steady.start hdisc).run hs hrun
    cases hend with
    | done => exact hl

theorem fails_of_resolve (hs : Storage.Answers s f) {e : ResolveError} {r : Recorder σ}
    (h : resolve limit t (Recorder.ofStorage s) = (.error e, r)) : ∃ names,
      r = ⟨s, names.map (⟨·, .utf8⟩)⟩ ∧ FirstMet (loadTree? f) t names ∧
        Fails limit f t names e := by
  unfold resolve at h
  split at h
  · next e' hdisc =>
    obtain ⟨he, rfl⟩ := Prod.mk.inj h
    obtain rfl := Except.error.inj he
    obtain ⟨rfl, hlt⟩ := discover_error hdisc List.nodup_nil
    refine ⟨[], rfl, .nil, .tooMany (fun name hname => absurd hname List.not_mem_nil) ?_⟩
    simpa [met] using hlt
  · next queue hdisc =>
    obtain ⟨l, hrun, hend⟩ := Loading.exists_ends limit .empty queue (Recorder.ofStorage s)
    rw [h] at hend
    exact ((Loading.Steady.start hdisc).run hs hrun).error_of_ends hs hend

/-- nothing fails while there are few names and all of them can be loaded -/
theorem Fails.absurd {names : List Text} {e : ResolveError} (h : Fails limit f t names e)
    (hfirst : FirstMet (loadTree? f) t names)
    (hfew : {name | Reached (loadTree? f) t name}.encard ≤ limit)
    (hall : ∀ name, Reached (loadTree? f) t name → Loads f name) : False := by
  cases h with
  | @unreadable before name e _ hread =>
    obtain ⟨source, tree, hok, -⟩ := hall name (hfirst.reached name (by simp))
    rw [hread] at hok
    cases hok
  | @unparsable before name source e _ hread hparse =>
    obtain ⟨source', tree, hok, hok'⟩ := hall name (hfirst.reached name (by simp))
    rw [hread] at hok
    cases hok
    rw [hparse] at hok'
    cases hok'
  | tooMany _ hlt =>
    have hsubset : {name | name ∈ met (loadTree? f) t names} ⊆
        {name | Reached (loadTree? f) t name} := fun name hname =>
      reached_of_mem_met hfirst.reached hname
    have hle := (Set.encard_le_encard hsubset).trans hfew
    rw [encard_setOf_mem nodup_met, Nat.cast_le] at hle
    omega

/-- **The outcome of loading from a storage whose answers never change.**  It succeeds exactly when
the tree needs no more than `limit` names and each of them can be read and parsed.  When it fails,
a recorder in front of the storage shows that the names read are the first ones met, and the last
of them, or the number of those met, is the cause. -/
theorem resolve_outcome (hs : Storage.Answers s f) (limit : Nat) (t : Tree) :
    ((∃ table, (resolve limit t s).1 = .ok table) ↔
      {name | Reached (loadTree? f) t name}.encard ≤ limit ∧
        ∀ name, Reached (loadTree? f) t name →
          ∃ source tree, f name = .ok source ∧ parse source = .ok tree) ∧
    ∀ e, (resolve limit t s).1 = .error e → ∃ names,
      resolve limit t (Recorder.ofStorage s) = (.error e, ⟨s, names.map (⟨·, .utf8⟩)⟩) ∧
        FirstMet (loadTree? f) t names ∧ Fails limit f t names e := by
  obtain ⟨hresult, -⟩ := resolve_recorder limit t s []
  change (resolve limit t (Recorder.ofStorage s)).1 = _ at hresult
  have hfails : ∀ e, (resolve limit t s).1 = .error e → ∃ names,
      resolve limit t (Recorder.ofStorage s) = (.error e, ⟨s, names.map (⟨·, .utf8⟩)⟩) ∧
        FirstMet (loadTree? f) t names ∧ Fails limit f t names e := by
    intro e he
    have hrec : resolve limit t (Recorder.ofStorage s) =
        (.error e, (resolve limit t (Recorder.ofStorage s)).2) := Prod.ext (hresult.trans he) rfl
    obtain ⟨names, hcalls, hfirst, hcause⟩ := fails_of_resolve hs hrec
    exact ⟨names, hrec.trans (by rw [hcalls]), hfirst, hcause⟩
  refine ⟨⟨?_, ?_⟩, hfails⟩
  · rintro ⟨table, hok⟩
    have hsteady := steady_of_resolve hs (Prod.ext (hresult.trans hok) rfl)
    have hmet : met (loadTree? f) t table.names = table.names := by
      simpa using (hsteady.met_eq hs).symm
    have hreached : ∀ {name}, Reached (loadTree? f) t name ↔ name ∈ table.names :=
      hsteady.firstMet.reached_iff hmet
    refine ⟨?_, fun name hname => hsteady.loads hs (hreached.1 hname)⟩
    simp only [hreached]
    rw [encard_setOf_mem hsteady.sound.nodup_names, Nat.cast_le]
    simpa using hsteady.length_le
  · rintro ⟨hfew, hall⟩
    cases hout : (resolve limit t s).1 with
    | ok table => exact ⟨table, rfl⟩
    | error e =>
      obtain ⟨names, -, hfirst, hcause⟩ := hfails e hout
      exact (hcause.absurd hfirst hfew hall).elim

/-- two templates that refer to each other, and a third one that refers to nothing -/
def pingPong : MemoryStorage :=
  ⟨[("a".toList, "{{> b}}".toList),
    ("b".toList, "{{> c}}{{> a}}".toList), ("c".toList, [])]⟩

theorem parse_pingPong :
    parse "{{> b}}".toList = .ok [.inclusion "b".toList none] ∧
    parse "{{> c}}{{> a}}".toList =
      .ok [.inclusion "c".toList none, .inclusion "a".toList none] := by
  refine ⟨parse_eq_ok_iff.2 ?_, parse_eq_ok_iff.2 ?_⟩
  · with_unfolding_all rfl
  · with_unfolding_all rfl

theorem resolve_pingPong : resolve 3 [.inclusion "a".toList none] pingPong = (.ok ⟨[
    ⟨"a".toList, "{{> b}}".toList, [.inclusion "b".toList none]⟩,
    ⟨"b".toList, "{{> c}}{{> a}}".toList,
      [.inclusion "c".toList none, .inclusion "a".toList none]⟩,
    ⟨"c".toList, [], []⟩]⟩, pingPong) := by
  obtain ⟨ha, hb⟩ := parse_pingPong
  have hrun : Relation.ReflTransGen (Loading.Step 3) ⟨.empty, ["a".toList], pingPong⟩ _ :=
    .head (.load rfl ha rfl) <| .head (.load rfl hb rfl) <| .single (.load rfl parse_nil rfl)
  exact Loading.loadFrom_of_run hrun .done

theorem resolve_outcome_pingPong : ∃ f, Storage.Answers pingPong f ∧
    {name | Reached (loadTree? f) [.inclusion "a".toList none] name}.encard ≤ (3 : Nat) ∧
    ∃ names, resolve 2 [.inclusion "a".toList none] (Recorder.ofStorage pingPong) =
        (.error (.tooMany 2), ⟨pingPong, names.map (⟨·, .utf8⟩)⟩) ∧
      FirstMet (loadTree? f) [.inclusion "a".toList none] names ∧
      Fails 2 f [.inclusion "a".toList none] names (.tooMany 2) := by
  have hs := pingPong.answers
  have hok : ∃ table, (resolve 3 [.inclusion "a".toList none] pingPong).1 = .ok table :=
    ⟨_, congrArg Prod.fst resolve_pingPong⟩
  have herror : (resolve 2 [.inclusion "a".toList none] pingPong).1 = .error (.tooMany 2) := by
    obtain ⟨ha, hb⟩ := parse_pingPong
    have hrun : Relation.ReflTransGen (Loading.Step 2) ⟨.empty, ["a".toList], pingPong⟩ _ :=
      .single (.load rfl ha rfl)
    exact congrArg Prod.fst (Loading.loadFrom_of_run hrun (.tooMany rfl hb rfl))
  obtain ⟨hiff, -⟩ := resolve_outcome hs 3 [.inclusion "a".toList none]
  obtain ⟨-, hfails⟩ := resolve_outcome hs 2 [.inclusion "a".toList none]
  exact ⟨_, hs, (hiff.1 hok).1, hfails _ herror⟩

end
end Mustache
