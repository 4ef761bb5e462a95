import Mathlib.Data.List.Basic
import Mustache.Storage.Directory

/-!
# Where a resolved name lies

A path is looked at as the steps it takes: its components without `.`, which leads nowhere.  A
path lies *under* another one when it takes the same steps and then goes through names only.

* `Path.steps`             the steps of a path; `steps_join`, `steps_withExtension`
* `Path.Under`             the second path goes on where the first one ends
* `NamedRoot.RenamesRoot`  a name without a part of its own, and an extension for the root
* `NamedRoot.resolve_under_iff`  a resolved name lies under the root, that case apart

`join` only adds steps.  `withExtension` changes the last step, if it is a name, and this is a step
of the root itself when the name adds none.
-/

namespace Mustache
namespace Path

/-- the components of a path but `.` -/
def steps (p : Text) : List Component := (components p).filter (· ≠ .current)

/-- by the steps alone, `p` is `base` or below it -/
def Under (base p : Text) : Prop := ∃ names : List Text, steps p = steps base ++ names.map .normal

/-! ## pieces -/

theorem pieces_append_slash (a b : Text) : pieces (a ++ '/' :: b) = pieces a ++ pieces b :=
  List.splitOn_append_cons_self a b

theorem slash_notMem_of_mem_pieces {p piece : Text} (h : piece ∈ pieces p) : '/' ∉ piece :=
  Text.notMem_of_mem_splitOn h

theorem isAbsolute_iff {p : Text} : isAbsolute p = true ↔ ∃ q l, pieces p = [] :: q :: l := by
  cases p with
  | nil => simp [isAbsolute, pieces]
  | cons c p =>
    obtain ⟨q, l, hq⟩ := List.exists_cons_of_ne_nil (List.splitOn_ne_nil '/' p)
    by_cases hc : c = '/'
    · simp [isAbsolute, pieces, List.splitOn_cons_eq_if_modifyHead, hc, hq]
    · simp [isAbsolute, pieces, List.splitOn_cons_eq_if_modifyHead, hc, hq]

/-! ## steps -/

/-- a piece that leads somewhere leads up, or to its own name -/
theorem eq_of_component?_eq_some {piece : Text} {c : Component} (h : component? piece = some c) :
    c = .parent ∨ c = .normal piece := by
  unfold component? at h
  split at h
  · cases h
  · split at h
    · exact .inl (Option.some.inj h).symm
    · exact .inr (Option.some.inj h).symm

theorem component?_of_isIdle {piece : Text} (h : isIdle piece = true) : component? piece = none :=
  if_pos h

theorem steps_eq (p : Text) :
    steps p = (if isAbsolute p then [.root] else []) ++ (pieces p).filterMap component? := by
  have hnames : ((pieces p).filterMap component?).filter (· ≠ .current) =
      (pieces p).filterMap component? := by
    refine List.filter_eq_self.2 fun c hc => ?_
    obtain ⟨piece, -, hpiece⟩ := List.mem_filterMap.1 hc
    rcases eq_of_component?_eq_some hpiece with rfl | rfl <;> rfl
  rw [steps, components, List.filter_append, hnames]
  congr 1
  unfold leading
  split
  · rfl
  · next hp =>
    have hrel : isAbsolute p = false := by
      cases p with
      | nil => rfl
      | cons c p =>
        have hc : c ≠ '/' := fun e => hp p (e ▸ rfl)
        simpa [isAbsolute] using hc
    rw [hrel]
    split <;> simp

theorem steps_join {base p : Text} (h : isAbsolute p = false) :
    steps (join base p) = steps base ++ steps p := by
  have hp : steps p = (pieces p).filterMap component? := by
    rw [steps_eq, h]
    rfl
  rw [hp, steps_eq, steps_eq]
  unfold join
  rw [h, if_neg Bool.false_ne_true]
  by_cases hb : base = []
  · subst hb
    simp only [true_or, ↓reduceIte, List.nil_append, h]
    simp [isAbsolute, pieces, component?, isIdle]
  · have habs (q : Text) : isAbsolute (base ++ q) = isAbsolute base := by
      cases base with
      | nil => exact absurd rfl hb
      | cons c base => rfl
    rw [List.append_assoc]
    split
    · next hl =>
      obtain ⟨b, rfl⟩ : ∃ b, base = b ++ ['/'] := by
        rcases hl with hl | hl
        · exact absurd hl hb
        · exact List.getLast?_eq_some_iff.1 hl
      rw [habs, List.append_assoc, List.singleton_append, pieces_append_slash, pieces_append_slash]
      simp [pieces, component?, isIdle]
    · rw [habs, pieces_append_slash, List.filterMap_append]

/-! ## file names -/

theorem isIdle_of_dropWhile {p name : Text} {before : List Text}
    (h : (pieces p).reverse.dropWhile isIdle = name :: before) : isIdle name = false := by
  have := List.head_dropWhile_not isIdle (l := (pieces p).reverse) (by simp [h])
  simpa [h] using this

theorem filterMap_eq_nil_of_isIdle {l : List Text} (h : ∀ q ∈ l, isIdle q = true) :
    l.filterMap component? = [] :=
  List.filterMap_eq_nil_iff.2 fun q hq => component?_of_isIdle (h q hq)

theorem pieces_eq_append (p : Text) :
    pieces p = ((pieces p).reverse.dropWhile isIdle).reverse ++
      ((pieces p).reverse.takeWhile isIdle).reverse := by
  rw [← List.reverse_append, List.takeWhile_append_dropWhile, List.reverse_reverse]

/-- behind the last piece that leads somewhere stand idle ones -/
theorem exists_pieces_of_dropWhile {p name : Text} {before : List Text}
    (h : (pieces p).reverse.dropWhile isIdle = name :: before) :
    ∃ idle, pieces p = before.reverse ++ name :: idle ∧ ∀ q ∈ idle, isIdle q = true := by
  have hp := pieces_eq_append p
  rw [h, List.reverse_cons, List.append_assoc] at hp
  exact ⟨_, hp, fun q hq => List.all_eq_true.1 List.all_takeWhile q (List.mem_reverse.1 hq)⟩

/-- idle pieces at the end add nothing -/
theorem filterMap_pieces (p : Text) : (pieces p).filterMap component? =
    ((pieces p).reverse.dropWhile isIdle).reverse.filterMap component? := by
  have hnone : ((pieces p).reverse.takeWhile isIdle).reverse.filterMap component? = [] :=
    filterMap_eq_nil_of_isIdle fun q hq =>
      List.all_eq_true.1 List.all_takeWhile q (List.mem_reverse.1 hq)
  conv => lhs; rw [pieces_eq_append p]
  rw [List.filterMap_append, hnone, List.append_nil]

theorem component?_eq {piece : Text} (h : isIdle piece = false) :
    component? piece = some (if piece = ['.', '.'] then .parent else .normal piece) := by
  unfold component?
  rw [h, if_neg Bool.false_ne_true]
  split <;> rfl

theorem leading_cases (p : Text) :
    leading p = [.root] ∨ leading p = [.current] ∨ leading p = [] := by
  unfold leading
  split
  · exact .inl rfl
  · split
    · exact .inr (.inl rfl)
    · exact .inr (.inr rfl)

/-- the file name is the last piece that leads somewhere, unless it leads up -/
theorem fileName?_eq (p : Text) :
    fileName? p = match (pieces p).reverse.dropWhile isIdle with
      | [] => none
      | name :: _ => if name = ['.', '.'] then none else some name := by
  rw [fileName?, components, filterMap_pieces]
  cases hd : (pieces p).reverse.dropWhile isIdle with
  | nil => rcases leading_cases p with h | h | h <;> simp [h]
  | cons name before =>
    rw [List.reverse_cons, List.filterMap_append, ← List.append_assoc, List.filterMap_cons,
      component?_eq (isIdle_of_dropWhile hd), List.filterMap_nil, List.getLast?_concat]
    by_cases hup : name = ['.', '.'] <;> simp [hup]

/-- the pieces of a path that has a file name -/
theorem pieces_of_fileName? {p name : Text} (h : fileName? p = some name) :
    component? name = some (.normal name) ∧ ∃ before idle : List Text,
      pieces p = before ++ name :: idle ∧ (∀ q ∈ idle, isIdle q = true) ∧
      (pieces p).reverse.dropWhile isIdle = name :: before.reverse := by
  rw [fileName?_eq] at h
  split at h
  · cases h
  · next q before hd =>
    split at h
    · cases h
    · next hup =>
      obtain rfl := Option.some.inj h
      obtain ⟨idle, hp, hidle⟩ := exists_pieces_of_dropWhile hd
      refine ⟨?_, before.reverse, idle, hp, hidle, by rw [hd, List.reverse_reverse]⟩
      rw [component?_eq (isIdle_of_dropWhile hd), if_neg hup]

/-- the file name is the last step, if that is a name -/
theorem fileName?_eq_some_iff {p name : Text} :
    fileName? p = some name ↔ ∃ before, steps p = before ++ [.normal name] := by
  constructor
  · intro h
    obtain ⟨hname, before, idle, hp, hidle, -⟩ := pieces_of_fileName? h
    refine ⟨(if isAbsolute p then [.root] else []) ++ before.filterMap component?, ?_⟩
    rw [steps_eq, hp, List.filterMap_append, List.filterMap_cons, hname,
      filterMap_eq_nil_of_isIdle hidle, List.append_assoc]
  · rintro ⟨before, h⟩
    have hlast : (steps p).getLast? = some (.normal name) := by rw [h, List.getLast?_concat]
    rw [steps_eq, filterMap_pieces] at hlast
    rw [fileName?_eq]
    cases hd : (pieces p).reverse.dropWhile isIdle with
    | nil =>
      rw [hd] at hlast
      by_cases ha : isAbsolute p = true <;> simp [ha] at hlast
    | cons q before =>
      rw [hd, List.reverse_cons, List.filterMap_append, ← List.append_assoc, List.filterMap_cons,
        component?_eq (isIdle_of_dropWhile hd), List.filterMap_nil, List.getLast?_concat] at hlast
      by_cases hup : q = ['.', '.']
      · simp [hup] at hlast
      · simpa [hup] using hlast

theorem withExtension_of_fileName?_eq_none {ending p : Text} (h : fileName? p = none) :
    withExtension ending p = p := by
  rw [fileName?_eq] at h
  unfold withExtension
  split
  · rfl
  · next name before hd =>
    rw [hd] at h
    by_cases hup : name = ['.', '.']
    · rw [if_pos hup]
    · simp [hup] at h

theorem splitExtension_subset (name : Text) : (splitExtension name).1 ⊆ name := by
  unfold splitExtension
  split
  · next a c before hd =>
    intro x hx
    have hmem : x ∈ name.reverse.dropWhile (· ≠ '.') := by
      rw [hd]
      exact List.mem_cons_of_mem _ (List.mem_reverse.1 hx)
    exact List.mem_reverse.1 ((List.dropWhile_suffix _).subset hmem)
  · exact fun x hx => hx

theorem slash_notMem_dotted {ending : Text} (h : '/' ∉ ending) : '/' ∉ dotted ending := by
  unfold dotted
  split
  · exact List.not_mem_nil
  · simpa using h

/-- only the last piece changes, and idle pieces behind it go -/
theorem pieces_withExtension {ending p name : Text} {before : List Text} (hext : '/' ∉ ending)
    (hname : component? name = some (.normal name)) (hslash : ∀ q ∈ name :: before, '/' ∉ q)
    (hd : (pieces p).reverse.dropWhile isIdle = name :: before.reverse) :
    pieces (withExtension ending p) = before ++ [(splitExtension name).1 ++ dotted ending] := by
  have hup : name ≠ ['.', '.'] := by
    rintro rfl
    cases hname
  have hq : withExtension ending p =
      ['/'].intercalate (before ++ [(splitExtension name).1 ++ dotted ending]) := by
    rw [withExtension, hd]
    simp [hup]
  rw [hq]
  refine List.splitOn_intercalate '/' (fun l hl => ?_) (by simp)
  rcases List.mem_append.1 hl with hl | hl
  · exact hslash l (List.mem_cons_of_mem _ hl)
  · obtain rfl := List.mem_singleton.1 hl
    intro hm
    rcases List.mem_append.1 hm with hm | hm
    · exact hslash name List.mem_cons_self (splitExtension_subset name hm)
    · exact slash_notMem_dotted hext hm

/-- only the last step changes; a name that becomes a dot is no step any more -/
theorem steps_withExtension {ending p name : Text} (hext : '/' ∉ ending)
    (h : fileName? p = some name) :
    ∃ before, steps p = before ++ [.normal name] ∧
      steps (withExtension ending p) =
        before ++ (component? ((splitExtension name).1 ++ dotted ending)).toList := by
  obtain ⟨hname, before, idle, hp, hidle, hd⟩ := pieces_of_fileName? h
  have hslash : ∀ q ∈ name :: before, '/' ∉ q := by
    refine fun q hq => slash_notMem_of_mem_pieces (p := p) ?_
    rw [hp]
    rcases List.mem_cons.1 hq with rfl | hq <;> simp [*]
  have hpieces := pieces_withExtension hext hname hslash hd
  have habs : isAbsolute (withExtension ending p) = isAbsolute p := by
    have hne : name ≠ [] := by
      rintro rfl
      cases hname
    rw [Bool.eq_iff_iff, isAbsolute_iff, isAbsolute_iff, hpieces, hp]
    cases before with
    | nil => simp [hne]
    | cons b bs => cases bs <;> simp
  refine ⟨(if isAbsolute p then [.root] else []) ++ before.filterMap component?, ?_, ?_⟩
  · rw [steps_eq, hp, List.filterMap_append, List.filterMap_cons, hname,
      filterMap_eq_nil_of_isIdle hidle, List.append_assoc]
  · rw [steps_eq, habs, hpieces, List.filterMap_append, List.append_assoc]
    cases hg : component? ((splitExtension name).1 ++ dotted ending) <;> simp [hg]

theorem eq_of_component?_eq_normal {piece name : Text}
    (h : component? piece = some (.normal name)) : piece = name := by
  rcases eq_of_component?_eq_some h with h | h <;> cases h
  rfl

theorem component?_append_dotted {name : Text} (ending : Text)
    (h : component? name = some (.normal name)) :
    component? (name ++ dotted ending) = some (.normal (name ++ dotted ending)) := by
  by_cases hext : ending = []
  · simpa [dotted, hext] using h
  · obtain ⟨c, name, rfl⟩ := List.exists_cons_of_ne_nil (l := name) (by rintro rfl; cases h)
    obtain ⟨e, ending, rfl⟩ := List.exists_cons_of_ne_nil hext
    have hlen : 3 ≤ ((c :: name) ++ dotted (e :: ending)).length := by
      simp [dotted]
      omega
    have hne : ∀ q : Text, q.length < 3 → (c :: name) ++ dotted (e :: ending) ≠ q := by
      rintro q hq rfl
      omega
    have hidle : isIdle ((c :: name) ++ dotted (e :: ending)) = false := by
      rw [isIdle, beq_false_of_ne (hne [] (by decide)), beq_false_of_ne (hne ['.'] (by decide))]
      rfl
    rw [component?_eq hidle, if_neg (hne _ (by decide))]

theorem splitExtension_of_none {name : Text} (h : (splitExtension name).2 = none) :
    (splitExtension name).1 = name := by
  unfold splitExtension at h ⊢
  split
  · next a c before hd =>
    rw [hd] at h
    cases h
  · rfl

/-- an extension for a path that takes no step below `base` is one for `base` -/
theorem under_withExtension_iff {ending base p : Text} (hext : '/' ∉ ending)
    (h : steps p = steps base) :
    Under base (withExtension ending p) ↔
      ∀ name, fileName? base = some name → (splitExtension name).1 ++ dotted ending = name := by
  cases hp : fileName? p with
  | none =>
    have hbase : ∀ name, fileName? base ≠ some name := by
      intro name hname
      rw [fileName?_eq_some_iff, ← h, ← fileName?_eq_some_iff, hp] at hname
      cases hname
    rw [withExtension_of_fileName?_eq_none hp]
    exact iff_of_true ⟨[], by simpa using h⟩ fun name hname => absurd hname (hbase name)
  | some name =>
    obtain ⟨before, hsteps, hnew⟩ := steps_withExtension hext hp
    have hbase : fileName? base = some name := fileName?_eq_some_iff.2 ⟨before, h.symm.trans hsteps⟩
    obtain ⟨hname, -⟩ := pieces_of_fileName? hp
    rw [Under, ← h, hsteps, hnew, hbase]
    constructor
    · rintro ⟨names, hnames⟩ other hother
      obtain rfl := Option.some.inj hother
      rw [List.append_assoc, List.append_cancel_left_eq] at hnames
      refine eq_of_component?_eq_normal ?_
      cases hg : component? ((splitExtension name).1 ++ dotted ending) with
      | none => simp [hg] at hnames
      | some c =>
        rw [hg] at hnames
        exact congrArg some (List.cons.inj hnames).1
    · intro hsame
      rw [hsame name rfl, hname]
      exact ⟨[], by simp⟩

/-- an extension is added to a last step that has none -/
theorem steps_withExtension_of_none {ending p last : Text} {before : List Component}
    (hext : '/' ∉ ending) (h : steps p = before ++ [.normal last])
    (hlast : (splitExtension last).2 = none) :
    steps (withExtension ending p) = before ++ [.normal (last ++ dotted ending)] := by
  have hname : fileName? p = some last := fileName?_eq_some_iff.2 ⟨before, h⟩
  obtain ⟨_, hsteps, hnew⟩ := steps_withExtension hext hname
  obtain ⟨hnormal, -⟩ := pieces_of_fileName? hname
  obtain ⟨rfl, -⟩ := List.append_inj' (h.symm.trans hsteps) rfl
  rw [hnew, splitExtension_of_none hlast, component?_append_dotted ending hnormal]
  rfl

/-- an extension for a path that ends with a name below `base` is not one for `base` -/
theorem under_withExtension {ending base p last : Text} {names : List Text} (hext : '/' ∉ ending)
    (h : steps p = steps base ++ (names ++ [last]).map .normal)
    (hlast : (splitExtension last).2 = none) : Under base (withExtension ending p) := by
  rw [List.map_append, ← List.append_assoc] at h
  refine ⟨names ++ [last ++ dotted ending], ?_⟩
  rw [steps_withExtension_of_none hext h hlast, List.map_append, List.append_assoc]
  rfl

end Path

/-! ## names below a root -/

namespace NamedRoot

/-- a name without a part of its own, so that the default extension goes to the root, where it is
not there already -/
def RenamesRoot (r : NamedRoot) (name : Text) : Prop :=
  ∃ ending base, r.defaultExtension = some ending ∧ (∀ part, .normal part ∉ Path.components name) ∧
    Path.fileName? r.path = some base ∧ (Path.splitExtension base).1 ++ Path.dotted ending ≠ base

theorem isAbsolute_of_not_escape {name : Text}
    (h : (Path.components name).any isEscape = false) : Path.isAbsolute name = false := by
  cases name with
  | nil => rfl
  | cons c name =>
    by_cases hc : c = '/'
    · subst hc
      simp [Path.components, Path.leading, isEscape] at h
    · simpa [Path.isAbsolute] using hc

/-- a name that is not refused goes through names only -/
theorem steps_of_not_escape {name : Text} (h : (Path.components name).any isEscape = false) :
    ∃ names : List Text, Path.steps name = names.map .normal := by
  have hall : ∀ c ∈ Path.steps name, ∃ n, Path.Component.normal n = c := by
    intro c hc
    obtain ⟨hmem, hcur⟩ := List.mem_filter.1 hc
    have hesc := List.any_eq_false.1 h c hmem
    cases c with
    | normal n => exact ⟨n, rfl⟩
    | current => simp at hcur
    | root => simp [isEscape] at hesc
    | parent => simp [isEscape] at hesc
  generalize Path.steps name = l at hall
  induction l with
  | nil => exact ⟨[], rfl⟩
  | cons c l ih =>
    obtain ⟨n, rfl⟩ := hall c List.mem_cons_self
    obtain ⟨names, rfl⟩ := ih fun c hc => hall c (List.mem_cons_of_mem _ hc)
    exact ⟨n :: names, rfl⟩

theorem resolve_cases {r : NamedRoot} {name path : Text} (h : r.resolve name = .ok path) :
    (Path.components name).any isEscape = false ∧
      (path = Path.join r.path name ∧
          (r.defaultExtension = none ∨ (Path.extension? name).isSome = true) ∨
        ∃ ending, r.defaultExtension = some ending ∧ Path.extension? name = none ∧ '/' ∉ ending ∧
          path = Path.withExtension ending (Path.join r.path name)) := by
  unfold resolve at h
  split at h
  · cases h
  · next hesc =>
    refine ⟨Bool.eq_false_iff.2 hesc, ?_⟩
    simp only at h
    split at h
    · next hext =>
      cases h
      exact .inl ⟨rfl, .inl hext⟩
    · next ending hext =>
      split at h
      · next hsome =>
        cases h
        exact .inl ⟨rfl, .inr hsome⟩
      · next hnone =>
        split at h
        · cases h
        · next hslash =>
          cases h
          exact .inr ⟨ending, hext, Option.not_isSome_iff_eq_none.1 hnone, hslash, rfl⟩

/-- **A resolved name lies under the root, unless the default extension goes to the root.** -/
theorem resolve_under_iff {r : NamedRoot} {name path : Text} (h : r.resolve name = .ok path) :
    Path.Under r.path path ↔ ¬ r.RenamesRoot name := by
  obtain ⟨hesc, hpath⟩ := resolve_cases h
  obtain ⟨names, hnames⟩ := steps_of_not_escape hesc
  have hjoin : Path.steps (Path.join r.path name) = Path.steps r.path ++ names.map .normal := by
    rw [Path.steps_join (isAbsolute_of_not_escape hesc), hnames]
  have hnormal : ∀ part, .normal part ∈ Path.components name ↔ part ∈ names := by
    intro part
    have hmem : .normal part ∈ Path.steps name ↔ .normal part ∈ Path.components name := by
      simp [Path.steps]
    rw [← hmem, hnames]
    simp
  rcases hpath with ⟨rfl, hkept⟩ | ⟨ending, hext, hnone, hslash, rfl⟩
  · refine iff_of_true ⟨names, hjoin⟩ ?_
    rintro ⟨ending, base, hext, hno, -⟩
    rcases hkept with hkept | hkept
    · rw [hkept] at hext
      cases hext
    · obtain ⟨_, hsome⟩ := Option.isSome_iff_exists.1 hkept
      obtain ⟨part, hpart, -⟩ := Option.bind_eq_some_iff.1 hsome
      obtain ⟨before, hsteps⟩ := Path.fileName?_eq_some_iff.1 hpart
      refine hno part ((hnormal part).2 ?_)
      simpa [hsteps] using congrArg (.normal part ∈ ·) hnames
  · rcases List.eq_nil_or_concat' names with rfl | ⟨init, last, rfl⟩
    · rw [Path.under_withExtension_iff hslash (by simpa using hjoin)]
      constructor
      · rintro hsame ⟨ending', base, hext', -, hbase, hne⟩
        obtain rfl := Option.some.inj (hext.symm.trans hext')
        exact hne (hsame base hbase)
      · intro hnot base hbase
        refine Classical.byContradiction fun hne =>
          hnot ⟨ending, base, hext, fun part hpart => ?_, hbase, hne⟩
        exact List.not_mem_nil ((hnormal part).1 hpart)
    · refine iff_of_true (Path.under_withExtension hslash hjoin ?_) ?_
      · have hlast : Path.fileName? name = some last :=
          Path.fileName?_eq_some_iff.2 ⟨init.map .normal, by simpa using hnames⟩
        rw [Path.extension?, hlast] at hnone
        exact hnone
      · rintro ⟨ending', base, -, hno, -⟩
        exact hno last ((hnormal last).2 (by simp))

/-- idle pieces in the name, which has a part of its own -/
theorem resolve_under_nav :
    let r := (ofPath "/templates".toList).withDefaultExtension ".mustache".toList
    r.resolve "./inc//nav/.".toList = .ok "/templates/./inc//nav.mustache".toList ∧
      Path.Under r.path "/templates/./inc//nav.mustache".toList := by
  intro r
  have h : r.resolve "./inc//nav/.".toList = .ok "/templates/./inc//nav.mustache".toList := by
    decide
  refine ⟨h, (resolve_under_iff h).2 ?_⟩
  rintro ⟨_, _, _, hno, _⟩
  exact hno "nav".toList (by decide)

/-- the empty name with a default extension: a file beside the root -/
theorem resolve_beside_root :
    let r := (ofPath "/templates".toList).withDefaultExtension "mustache".toList
    r.resolve [] = .ok "/templates.mustache".toList ∧
      ¬ Path.Under r.path "/templates.mustache".toList := by
  refine ⟨by decide, ?_⟩
  rintro ⟨names, h⟩
  have hroot : Path.steps "/templates".toList = [.root, .normal "templates".toList] := by decide
  have hpath : Path.steps "/templates.mustache".toList =
      [.root, .normal "templates.mustache".toList] := by decide
  change Path.steps "/templates.mustache".toList = Path.steps "/templates".toList ++ _ at h
  rw [hroot, hpath] at h
  simp at h

end NamedRoot
end Mustache
