import Mathlib.Data.List.TakeWhile
import Mustache.Proofs.Confinement

/-!
# The path of a name

A name that is not refused goes through names only, and the path it stands for takes the steps of
the root and then goes through the same names.  The last one gets the default extension if it has
none of its own.  This does not hang on how the name is written: slashes may be repeated, and dots
may stand between them or at the end.

* `Path.names`                  the names among the components of a path
* `Path.splitExtension_append`  where a file name is split; `splitExtension_eq_none_iff`
* `NamedRoot.complete`          a file name with the default extension
* `NamedRoot.resolve_steps`     which names are refused, and the steps of the path of all others
-/

namespace Mustache
namespace Path

/-! ## names among components -/

def Component.name? : Component → Option Text
  | .normal name => some name
  | _ => none

/-- the names among the components of a path, in order -/
def names (p : Text) : List Text := (components p).filterMap Component.name?

theorem names_eq (p : Text) : names p = (steps p).filterMap Component.name? := by
  rw [names, steps, List.filterMap_filter]
  refine List.filterMap_congr fun c _ => ?_
  cases c <;> rfl

theorem names_of_steps {p : Text} {l : List Text} (h : steps p = l.map .normal) : names p = l := by
  rw [names_eq, h, List.filterMap_map]
  exact List.filterMap_some

/-- only a slash in front leads to the root -/
theorem root_mem_components_iff {p : Text} : .root ∈ components p ↔ isAbsolute p = true := by
  have hmem : .root ∈ components p ↔ .root ∈ steps p := by simp [steps]
  have hpieces : .root ∉ (pieces p).filterMap component? := by
    intro hroot
    obtain ⟨piece, -, hpiece⟩ := List.mem_filterMap.1 hroot
    rcases eq_of_component?_eq_some hpiece with h | h <;> cases h
  rw [hmem, steps_eq]
  by_cases habs : isAbsolute p = true <;> simp [habs, hpieces]

/-! ## extensions -/

theorem ne_dot_of_mem_reverse {s : Text} (h : '.' ∉ s) :
    ∀ x ∈ s.reverse, decide (x ≠ '.') = true := by
  intro x hx
  have hne : x ≠ '.' := fun hdot => h (hdot ▸ List.mem_reverse.1 hx)
  exact decide_eq_true hne

/-- the extension follows the last dot, if something stands in front of it -/
theorem splitExtension_append {stem ending : Text} (hstem : stem ≠ []) (hending : '.' ∉ ending) :
    splitExtension (stem ++ '.' :: ending) = (stem, some ending) := by
  have hrev : (stem ++ '.' :: ending).reverse = ending.reverse ++ '.' :: stem.reverse := by simp
  have hpos := ne_dot_of_mem_reverse hending
  obtain ⟨c, before, hc⟩ := List.exists_cons_of_ne_nil (mt List.reverse_eq_nil_iff.1 hstem)
  unfold splitExtension
  rw [hrev, List.takeWhile_append_of_pos hpos, List.dropWhile_append_of_pos hpos, hc]
  show ((c :: before).reverse, some _) = _
  rw [← hc]
  simp

theorem splitExtension_of_notMem {name : Text} (h : '.' ∉ name.tail) :
    splitExtension name = (name, none) := by
  cases name with
  | nil => rfl
  | cons c rest =>
    have hrest : '.' ∉ rest := h
    unfold splitExtension
    rw [List.reverse_cons, List.dropWhile_append_of_pos (ne_dot_of_mem_reverse hrest)]
    by_cases hc : c = '.' <;> simp [hc]

/-- a name with a dot behind its first character, cut at the last one -/
theorem exists_append_of_dot_mem_tail {name : Text} (h : '.' ∈ name.tail) :
    ∃ stem ending, stem ≠ [] ∧ '.' ∉ ending ∧ name = stem ++ '.' :: ending := by
  cases name with
  | nil => exact absurd h List.not_mem_nil
  | cons c rest =>
    -- the last dot is the first one from behind
    obtain ⟨after, before, hrest, hafter⟩ := List.eq_append_cons_of_mem (List.mem_reverse.2 h)
    refine ⟨c :: before.reverse, after.reverse, List.cons_ne_nil _ _,
      mt List.mem_reverse.1 hafter, ?_⟩
    have hname : rest = before.reverse ++ '.' :: after.reverse := by
      rw [← List.reverse_inj, show rest.reverse = after ++ '.' :: before from hrest]
      simp
    rw [hname]
    rfl

/-- there is no extension without a dot behind the first character -/
theorem splitExtension_eq_none_iff {name : Text} :
    (splitExtension name).2 = none ↔ '.' ∉ name.tail := by
  constructor
  · intro hnone hdot
    obtain ⟨stem, ending, hstem, hending, rfl⟩ := exists_append_of_dot_mem_tail hdot
    rw [splitExtension_append hstem hending] at hnone
    cases hnone
  · intro h
    rw [splitExtension_of_notMem h]

end Path

namespace NamedRoot
variable {r : NamedRoot} {last ending : Text}

/-- the last name of a path with the default extension, unless it has one: no dot counts that is
its first character, and the empty extension adds nothing -/
def complete (r : NamedRoot) (last : Text) : Text :=
  match r.defaultExtension with
  | none => last
  | some ending => if ending ≠ [] ∧ '.' ∉ last.tail then last ++ '.' :: ending else last

theorem complete_of_none (h : r.defaultExtension = none) : r.complete last = last := by
  rw [complete, h]

theorem complete_of_mem (h : '.' ∈ last.tail) : r.complete last = last := by
  unfold complete
  split
  · rfl
  · exact if_neg fun hc => hc.2 h

theorem complete_of_notMem (h : r.defaultExtension = some ending) (hlast : '.' ∉ last.tail) :
    r.complete last = last ++ Path.dotted ending := by
  rw [complete, h, Path.dotted]
  by_cases hext : ending = []
  · simp [hext]
  · simp [hext, hlast]

theorem any_isEscape_iff {name : Text} : (Path.components name).any isEscape = true ↔
    Path.isAbsolute name = true ∨ .parent ∈ Path.components name := by
  rw [← Path.root_mem_components_iff, List.any_eq_true]
  constructor
  · rintro ⟨c, hc, hesc⟩
    cases c with
    | root => exact .inl hc
    | parent => exact .inr hc
    | current => cases hesc
    | normal name => cases hesc
  · rintro (h | h)
    · exact ⟨_, h, rfl⟩
    · exact ⟨_, h, rfl⟩

theorem resolve_of_kept {name : Text} (hesc : (Path.components name).any isEscape = false)
    (hkept : r.defaultExtension = none ∨ (Path.extension? name).isSome = true) :
    r.resolve name = .ok (Path.join r.path name) := by
  unfold resolve
  rw [hesc, if_neg Bool.false_ne_true]
  cases hd : r.defaultExtension with
  | none => rfl
  | some ending => exact if_pos (hkept.resolve_left (by rw [hd]; exact Option.some_ne_none _))

theorem resolve_of_added {name : Text} (hesc : (Path.components name).any isEscape = false)
    (hd : r.defaultExtension = some ending) (hnone : Path.extension? name = none)
    (hslash : '/' ∉ ending) :
    r.resolve name = .ok (Path.withExtension ending (Path.join r.path name)) := by
  unfold resolve
  rw [hesc, if_neg Bool.false_ne_true, hd, hnone]
  exact if_neg hslash

section
variable {name : Text} {init : List Text} (hesc : (Path.components name).any isEscape = false)
  (hnames : Path.names name = init ++ [last])
include hesc hnames

/-- a name that is not refused has no other steps than its names -/
theorem steps_of_names : Path.steps name = init.map .normal ++ [.normal last] := by
  obtain ⟨parts, hparts⟩ := steps_of_not_escape hesc
  obtain rfl := (Path.names_of_steps hparts).symm.trans hnames
  rw [hparts, List.map_append]
  rfl

theorem steps_join_of_names (base : Text) : Path.steps (Path.join base name) =
    (Path.steps base ++ init.map .normal) ++ [.normal last] := by
  rw [Path.steps_join (isAbsolute_of_not_escape hesc), steps_of_names hesc hnames,
    List.append_assoc]

theorem extension?_of_names : Path.extension? name = (Path.splitExtension last).2 := by
  have hlast : Path.fileName? name = some last :=
    Path.fileName?_eq_some_iff.2 ⟨_, steps_of_names hesc hnames⟩
  rw [Path.extension?, hlast]
  rfl

end

/-- a name that is not refused stands for a path, and the names in it tell its steps -/
theorem exists_resolve {name : Text}
    (hslash : ∀ ending, r.defaultExtension = some ending → '/' ∉ ending)
    (hesc : (Path.components name).any isEscape = false) :
    ∃ path, r.resolve name = .ok path ∧ ∀ init last, Path.names name = init ++ [last] →
      Path.steps path = Path.steps r.path ++ (init ++ [r.complete last]).map .normal := by
  by_cases hkept : r.defaultExtension = none ∨ (Path.extension? name).isSome = true
  · refine ⟨_, resolve_of_kept hesc hkept, fun init last hnames => ?_⟩
    have hsame : r.complete last = last := by
      rcases hkept with hnone | hsome
      · exact complete_of_none hnone
      · refine complete_of_mem (Classical.not_not.1 fun hdot => ?_)
        rw [extension?_of_names hesc hnames, Path.splitExtension_eq_none_iff.2 hdot] at hsome
        cases hsome
    rw [steps_join_of_names hesc hnames, hsame, List.map_append, List.append_assoc]
    rfl
  · obtain ⟨hset, hnone⟩ := not_or.1 hkept
    obtain ⟨ending, hd⟩ := Option.ne_none_iff_exists'.1 hset
    rw [Option.not_isSome_iff_eq_none] at hnone
    refine ⟨_, resolve_of_added hesc hd hnone (hslash ending hd), fun init last hnames => ?_⟩
    have hplain : (Path.splitExtension last).2 = none := by
      rw [← extension?_of_names hesc hnames, hnone]
    rw [Path.steps_withExtension_of_none (hslash ending hd)
        (steps_join_of_names hesc hnames r.path) hplain,
      complete_of_notMem hd (Path.splitExtension_eq_none_iff.1 hplain), List.map_append,
      List.append_assoc]
    rfl

/-- **A resolved path takes the steps of the root and of the name.**  Exactly the names that are
absolute or climb are refused.  Every other one stands for a path, and if the name has a part of
its own the path goes on from the root through the parts of the name, the last one completed. -/
theorem resolve_steps {r : NamedRoot}
    (hslash : ∀ ending, r.defaultExtension = some ending → '/' ∉ ending) (name : Text) :
    (r.resolve name = .error (.outsideRoot name) ↔
      Path.isAbsolute name = true ∨ .parent ∈ Path.components name) ∧
    (¬ (Path.isAbsolute name = true ∨ .parent ∈ Path.components name) →
      ∃ path, r.resolve name = .ok path ∧ ∀ init last, Path.names name = init ++ [last] →
        Path.steps path = Path.steps r.path ++ (init ++ [r.complete last]).map .normal) := by
  rw [← any_isEscape_iff]
  by_cases hesc : (Path.components name).any isEscape = true
  · exact ⟨iff_of_true (by rw [resolve, if_pos hesc]) hesc, fun hnot => absurd hesc hnot⟩
  · have hok := exists_resolve hslash (Bool.eq_false_iff.2 hesc)
    refine ⟨iff_of_false (fun herror => ?_) hesc, fun _ => hok⟩
    obtain ⟨path, hpath, -⟩ := hok
    rw [hpath] at herror
    cases herror

-- idle pieces in the root and in the name, whose last part has a dot in front only
theorem resolve_steps_hidden :
    let r := (ofPath "./tpl/".toList).withDefaultExtension ".mustache".toList
    (∀ ending, r.defaultExtension = some ending → '/' ∉ ending) ∧
    ¬ (Path.isAbsolute "./inc//.nav/.".toList = true ∨
      .parent ∈ Path.components "./inc//.nav/.".toList) ∧
    Path.names "./inc//.nav/.".toList = ["inc".toList] ++ [".nav".toList] ∧
    ∃ path, r.resolve "./inc//.nav/.".toList = .ok path ∧ Path.steps path =
      [.normal "tpl".toList, .normal "inc".toList, .normal ".nav.mustache".toList] := by
  intro r
  have hslash : ∀ ending, r.defaultExtension = some ending → '/' ∉ ending := by
    rintro ending h
    obtain rfl : "mustache".toList = ending := Option.some.inj h
    decide
  have hopen : ¬ (Path.isAbsolute "./inc//.nav/.".toList = true ∨
      .parent ∈ Path.components "./inc//.nav/.".toList) := by decide
  have hnames : Path.names "./inc//.nav/.".toList = ["inc".toList] ++ [".nav".toList] := by decide
  obtain ⟨path, hpath, hsteps⟩ := (resolve_steps hslash "./inc//.nav/.".toList).2 hopen
  refine ⟨hslash, hopen, hnames, path, hpath, (hsteps _ _ hnames).trans ?_⟩
  decide

end NamedRoot
end Mustache
