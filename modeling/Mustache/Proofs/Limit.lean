import Mathlib.Data.List.Basic
import Mustache.Proofs.Lifecycle
import Mustache.Proofs.Outcome

/-!
# The limit on partials

Two runs of loading begin in the same storage, with different limits.  They make the same reads
until one of them meets a name too many, and there it ends.  The storage may answer as it likes, and
even go on naming new partials for ever: each turn of the loop is one read, so the limit is what
brings it to its end.

* `Loading.Ends.names_prefix`   the names read are the first ones of table and queue
* `resolve_reads`               no more names are read than the limit allows, and none twice
* `loadFrom_eq_or_tooMany`      a higher limit changes nothing but a run that meets too many names
* `resolve_truncates`           what a limit does
-/

namespace Mustache

/-! ## discovering -/

theorem discover_eq_tooMany {limit : Nat} {loaded queue names : List Text} {e : ResolveError}
    (h : discover limit loaded queue names = .error e) : e = .tooMany limit := by
  fun_induction discover limit loaded queue names with
  | case1 => cases h
  | case2 queue name names _ ih => exact ih h
  | case3 => exact (Except.error.inj h).symm
  | case4 queue name names _ _ ih => exact ih h

theorem discover_ok_of_le {limit limit' : Nat} (hle : limit ≤ limit')
    {loaded queue names queue' : List Text} (h : discover limit loaded queue names = .ok queue') :
    discover limit' loaded queue names = .ok queue' := by
  fun_induction discover limit loaded queue names with
  | case1 => exact h
  | case2 queue name names hmem ih =>
    rw [discover, if_pos hmem]
    exact ih h
  | case3 => cases h
  | case4 queue name names hmem hroom ih =>
    have hroom' : ¬ limit' ≤ loaded.length + queue.length := by omega
    rw [discover, if_neg hmem, if_neg hroom']
    exact ih h

section
variable {σ : Type} [Storage σ] {limit limit' : Nat} {t : Tree} {s : σ}

/-! ## the names read -/

theorem Loading.Sound.recorded {l : Loading (Recorder σ)} (h : l.Sound t (Recorder.ofStorage s)) :
    l.storage.names = l.table.names := by
  rw [Recorder.names, h.calls_eq, Recorder.ofStorage, List.nil_append, List.map_map]
  exact List.map_id _

theorem Loading.Ends.names_prefix {l : Loading (Recorder σ)}
    {result : Except ResolveError PartialTable} {r : Recorder σ}
    (h : l.Sound t (Recorder.ofStorage s)) (hend : l.Ends limit (result, r)) :
    r.names <+: l.table.names ++ l.queue := by
  have hnames : r.names = l.table.names ++ l.queue.take 1 := by
    rw [Recorder.names, hend.calls_eq, List.map_append, ← h.recorded, List.map_map]
    exact congrArg _ (List.map_id _)
  rw [hnames]
  exact (List.prefix_append_right_inj _).2 (List.take_prefix 1 l.queue)

theorem Loading.length_le_run {l l' : Loading σ} (hr : Relation.ReflTransGen (Step limit) l l')
    (h : (l.table.names ++ l.queue).length ≤ limit) :
    (l'.table.names ++ l'.queue).length ≤ limit := by
  induction hr with
  | refl => exact h
  | tail _ hstep ih => exact hstep.length_le ih

theorem resolve_reads (limit : Nat) (t : Tree) (s : σ) :
    (resolve limit t (Recorder.ofStorage s)).2.names.length ≤ limit ∧
      (resolve limit t (Recorder.ofStorage s)).2.names.Nodup := by
  unfold resolve
  split
  · exact ⟨Nat.zero_le _, List.nodup_nil⟩
  · next queue hdisc =>
    obtain ⟨l, hrun, hend⟩ := Loading.exists_ends limit .empty queue (Recorder.ofStorage s)
    have hsound : l.Sound t (Recorder.ofStorage s) := (Loading.Sound.start hdisc).run hrun
    have hlength : (l.table.names ++ l.queue).length ≤ limit :=
      Loading.length_le_run hrun (length_discover_le hdisc (Nat.zero_le _))
    have hpre := hend.names_prefix hsound
    exact ⟨hpre.length_le.trans hlength, hpre.sublist.nodup hsound.nodup⟩

/-! ## two limits -/

theorem calls_prefix_loadFrom (limit : Nat) (table : PartialTable) (queue : List Text)
    (r : Recorder σ) : r.calls <+: (loadFrom limit table queue r).2.calls := by
  rw [← run_loader, Client.run_recorder]
  exact List.prefix_append _ _

/-- Until a name too many is met the limit does not count. -/
theorem loadFrom_eq_or_tooMany (hle : limit ≤ limit') (table : PartialTable) (queue : List Text)
    (r : Recorder σ) :
    loadFrom limit' table queue r = loadFrom limit table queue r ∨
      (loadFrom limit table queue r).1 = .error (.tooMany limit) ∧
        (loadFrom limit table queue r).2.calls <+: (loadFrom limit' table queue r).2.calls := by
  fun_induction loadFrom limit table queue r with
  | case1 table r =>
    left
    exact Loading.Ends.done.loadFrom_eq
  | case2 table r name rest e r₁ hread =>
    left
    exact (Loading.Ends.unreadable hread).loadFrom_eq
  | case3 table r name rest source r₁ hread e hparse =>
    left
    exact (Loading.Ends.unparsable hread hparse).loadFrom_eq
  | case4 table r name rest source r₁ hread tree hparse table₁ e hdisc =>
    right
    obtain rfl := discover_eq_tooMany hdisc
    refine ⟨rfl, ?_⟩
    simp only [loadFrom_cons, hread, hparse]
    split
    · exact List.prefix_refl _
    · exact calls_prefix_loadFrom ..
  | case5 table r name rest source r₁ hread tree hparse table₁ queue' hdisc ih =>
    rw [(Loading.Step.load hread hparse (discover_ok_of_le hle hdisc)).loadFrom_eq]
    exact ih

/-- the run without a recorder -/
theorem resolve_bare (limit : Nat) (t : Tree) (s : σ) :
    resolve limit t s = ((resolve limit t (Recorder.ofStorage s)).1,
      (resolve limit t (Recorder.ofStorage s)).2.inner) := by
  obtain ⟨hresult, hstorage⟩ := resolve_recorder limit t s []
  exact Prod.ext hresult.symm hstorage.symm

theorem resolve_eq_or_tooMany (hle : limit ≤ limit') (t : Tree) (s : σ) :
    resolve limit' t (Recorder.ofStorage s) = resolve limit t (Recorder.ofStorage s) ∨
      (resolve limit t (Recorder.ofStorage s)).1 = .error (.tooMany limit) ∧
        (resolve limit t (Recorder.ofStorage s)).2.calls <+:
          (resolve limit' t (Recorder.ofStorage s)).2.calls := by
  cases hdisc : discover limit [] [] t.references with
  | error e =>
    right
    obtain rfl := discover_eq_tooMany hdisc
    have hres : resolve limit t (Recorder.ofStorage s) =
        (.error (.tooMany limit), Recorder.ofStorage s) := by rw [resolve, hdisc]
    rw [hres]
    exact ⟨rfl, List.nil_prefix⟩
  | ok queue =>
    have hdisc' := discover_ok_of_le hle hdisc
    rw [resolve, resolve, hdisc, hdisc']
    exact loadFrom_eq_or_tooMany hle .empty queue (Recorder.ofStorage s)

/-- **A limit bounds the reads and cuts nothing else.**  Loading comes to a result from any storage;
no more names are read than the limit allows, and none twice.  A run with a higher limit begins
with the same reads, and unless the lower limit was exceeded it makes no others and has the same
result, with a recorder in front of the storage and without. -/
theorem resolve_truncates (hle : limit ≤ limit') (t : Tree) (s : σ) :
    ∃ result r, resolve limit t (Recorder.ofStorage s) = (result, r) ∧
      resolve limit t s = (result, r.inner) ∧
      r.names.length ≤ limit ∧ r.names.Nodup ∧
      r.calls <+: (resolve limit' t (Recorder.ofStorage s)).2.calls ∧
      (result ≠ .error (.tooMany limit) →
        resolve limit' t (Recorder.ofStorage s) = (result, r) ∧
        resolve limit' t s = (result, r.inner)) := by
  obtain ⟨hlength, hnodup⟩ := resolve_reads limit t s
  have hcases := resolve_eq_or_tooMany hle t s
  have hbare := resolve_bare limit t s
  rcases hr : resolve limit t (Recorder.ofStorage s) with ⟨result, r⟩
  rw [hr] at hlength hnodup hcases hbare
  refine ⟨result, r, rfl, hbare, hlength, hnodup, ?_, fun hfew => ?_⟩
  · rcases hcases with heq | ⟨-, hpre⟩
    · rw [heq]
    · exact hpre
  · rcases hcases with heq | ⟨hmany, -⟩
    · refine ⟨heq, ?_⟩
      rw [resolve_bare limit' t s, heq]
    · exact absurd hmany hfew

end

/-- a storage that answers each name with a template for one more -/
def endless : ScriptedStorage := ⟨[], .text "{{> @NAME@x}}".toList⟩

theorem resolve_truncates_endless :
    2 ≤ 3 ∧ (resolve 2 [.inclusion "a".toList none] (Recorder.ofStorage endless)).2.names =
      ["a".toList, "ax".toList] ∧
    (resolve 2 [.inclusion "a".toList none] (Recorder.ofStorage endless)).2.calls <+:
      (resolve 3 [.inclusion "a".toList none] (Recorder.ofStorage endless)).2.calls ∧
    ∃ table, resolve 3 [.inclusion "a".toList none] pingPong = (.ok table, pingPong) ∧
      resolve 4 [.inclusion "a".toList none] pingPong = (.ok table, pingPong) := by
  have hle : 2 ≤ 3 := by decide
  obtain ⟨result, r, hrec, -, -, -, hpre, -⟩ :=
    resolve_truncates hle [.inclusion "a".toList none] endless
  obtain ⟨result', r', -, hbare, -, -, -, hsame⟩ :=
    resolve_truncates (Nat.le_succ 3) [.inclusion "a".toList none] pingPong
  obtain ⟨rfl, hinner⟩ := Prod.mk.inj (hbare.symm.trans resolve_pingPong)
  have hfew : ∀ table : PartialTable,
      (Except.ok table : Except ResolveError PartialTable) ≠ .error (.tooMany 3) := by
    intro table h
    cases h
  refine ⟨hle, by decide +kernel, ?_, _, resolve_pingPong, hinner ▸ (hsame (hfew _)).2⟩
  rw [hrec]
  exact hpre

end Mustache
