import Mathlib.Data.List.Forall2
import Mustache.Proofs.ResolvedPath
import Mustache.Template

/-!
# Files known by their suffix

What a file holds is told by the end of its name.  The *last name* of a path stands at its end, when
slashes there, and single dots between them, are left out; a path whose last step climbs has none.
A path has one of some extensions when its last name is a stem, which is not empty, and behind it
the extension, in capital or small letters.

* `Text.SameButCase`           texts that differ in capital and small letters of ASCII alone
* `Path.EndsIn`                what stands at the end of a path; `LastName`, if it is a name
* `Path.lastName_iff`          the last name is the file name
* `Path.matchesExtension_iff`  a file name cut at its last dot; `matchesExtension_iff_suffix`
* `Template.supportsPath_iff`  the files that hold templates
* `Path.matchesExtension_bySuffix`  what an answer depends on

Of a path only slashes, dots and the letters of ASCII are looked at, so all this holds as well when
the bytes of paths and extensions are taken for their characters.
-/

namespace Mustache

/-! ## capital and small letters -/

namespace Text

/-- the letters of ASCII, the capital one with the small one -/
def letters : List (Char × Char) :=
  "ABCDEFGHIJKLMNOPQRSTUVWXYZ".toList.zip "abcdefghijklmnopqrstuvwxyz".toList

/-- the same character, or one letter of ASCII in its two cases -/
def SameLetter (x y : Char) : Prop := x = y ∨ (x, y) ∈ letters ∨ (y, x) ∈ letters

/-- the texts differ in the case of ASCII letters alone -/
def SameButCase (s t : Text) : Prop := List.Forall₂ SameLetter s t

theorem toLower_of_mem_letters {x y : Char} (h : (x, y) ∈ letters) :
    x.toLower = y ∧ y.toLower = y := by
  have hall : ∀ q ∈ letters, q.1.toLower = q.2 ∧ q.2.toLower = q.2 := by decide
  exact hall _ h

theorem toLower_mem_letters {x : Char} (h : x.isUpper = true) : (x, x.toLower) ∈ letters := by
  have hall : ∀ n < 91, 65 ≤ n → (Char.ofNat n, (Char.ofNat n).toLower) ∈ letters := by decide
  obtain ⟨hlow, hhigh⟩ := of_decide_eq_true h
  have hx := hall x.toNat (Nat.lt_succ_of_le hhigh) hlow
  rwa [Char.ofNat_toNat] at hx

theorem toLower_of_not_isUpper {x : Char} (h : x.isUpper = false) : x.toLower = x :=
  dif_neg (of_decide_eq_false h)

/-- different capital letters have different small ones -/
theorem eq_of_mem_letters {x y z : Char} (hx : (x, z) ∈ letters) (hy : (y, z) ∈ letters) :
    x = y := by
  have hall : ∀ q ∈ letters, ∀ r ∈ letters, q.2 = r.2 → q.1 = r.1 := by decide
  exact hall _ hx _ hy rfl

theorem sameLetter_iff {x y : Char} : SameLetter x y ↔ x.toLower = y.toLower := by
  constructor
  · rintro (rfl | h | h)
    · rfl
    · obtain ⟨hx, hy⟩ := toLower_of_mem_letters h
      rw [hx, hy]
    · obtain ⟨hy, hx⟩ := toLower_of_mem_letters h
      rw [hx, hy]
  · intro h
    cases hx : x.isUpper <;> cases hy : y.isUpper
    · rw [toLower_of_not_isUpper hx, toLower_of_not_isUpper hy] at h
      exact .inl h
    · have hmem := toLower_mem_letters hy
      rw [← h, toLower_of_not_isUpper hx] at hmem
      exact .inr (.inr hmem)
    · have hmem := toLower_mem_letters hx
      rw [h, toLower_of_not_isUpper hy] at hmem
      exact .inr (.inl hmem)
    · exact .inl (eq_of_mem_letters (toLower_mem_letters hx) (h ▸ toLower_mem_letters hy))

theorem sameButCase_iff {s t : Text} : SameButCase s t ↔ Path.lower s = Path.lower t := by
  have hsame : SameLetter = fun x y => x.toLower = y.toLower := by
    funext x y
    exact propext sameLetter_iff
  rw [SameButCase, hsame, ← List.forall₂_map_right_iff (f := Char.toLower),
    ← List.forall₂_map_left_iff (f := Char.toLower), List.forall₂_eq_eq_eq]
  rfl

instance (s t : Text) : Decidable (SameButCase s t) := decidable_of_iff _ sameButCase_iff.symm

theorem SameButCase.symm {s t : Text} (h : SameButCase s t) : SameButCase t s :=
  sameButCase_iff.2 (sameButCase_iff.1 h).symm

theorem SameButCase.trans {s t u : Text} (h : SameButCase s t) (h' : SameButCase t u) :
    SameButCase s u :=
  sameButCase_iff.2 ((sameButCase_iff.1 h).trans (sameButCase_iff.1 h'))

/-- a text that is cut can be cut at the same place in another case -/
theorem SameButCase.exists_append {s a b : Text} (h : SameButCase s (a ++ b)) :
    ∃ a' b', s = a' ++ b' ∧ SameButCase a' a ∧ SameButCase b' b :=
  ⟨s.take a.length, s.drop a.length, (List.take_append_drop _ _).symm,
    List.forall₂_take_append s a b h, List.forall₂_drop_append s a b h⟩

theorem eq_dot_of_sameLetter {x : Char} (h : SameLetter x '.') : x = '.' := by
  have hall : ∀ q ∈ letters, q.1 ≠ '.' ∧ q.2 ≠ '.' := by decide
  rcases h with h | h | h
  · exact h
  · exact absurd rfl (hall _ h).2
  · exact absurd rfl (hall _ h).1

theorem sameButCase_dot_cons_iff {s t : Text} :
    SameButCase s ('.' :: t) ↔ ∃ s', s = '.' :: s' ∧ SameButCase s' t := by
  constructor
  · intro h
    obtain ⟨x, s', hx, hs', rfl⟩ := List.forall₂_cons_right_iff.1 h
    exact ⟨s', by rw [eq_dot_of_sameLetter hx], hs'⟩
  · rintro ⟨s', rfl, h⟩
    exact .cons (.inl rfl) h

/-- dots have no case -/
theorem SameButCase.dot_notMem {s t : Text} (h : SameButCase s t) (ht : '.' ∉ t) : '.' ∉ s := by
  intro hdot
  obtain ⟨a, b, rfl⟩ := List.append_of_mem hdot
  obtain ⟨a', b', rfl, -, hb⟩ := h.symm.exists_append
  obtain ⟨b'', rfl, -⟩ := sameButCase_dot_cons_iff.1 hb
  exact ht (List.mem_append_right _ List.mem_cons_self)

end Text

namespace Path

/-! ## the end of a path -/

/-- slashes, and single dots behind some of them -/
def Idle (s : Text) : Prop :=
  ∃ l : List Text, s = l.flatMap ('/' :: ·) ∧ ∀ q ∈ l, q = [] ∨ q = ['.']

/-- the path is the piece, with directories in front of it and idle slashes behind, if any -/
def EndsIn (p piece : Text) : Prop :=
  ∃ dirs tail, p = dirs ++ (piece ++ tail) ∧ (dirs = [] ∨ dirs.getLast? = some '/') ∧
    '/' ∉ piece ∧ Idle tail

/-- the path ends in a name -/
structure LastName (p name : Text) : Prop where
  endsIn : EndsIn p name
  isName : name ≠ [] ∧ name ≠ ['.'] ∧ name ≠ ['.', '.']

theorem isIdle_iff {q : Text} : isIdle q = true ↔ q = [] ∨ q = ['.'] := by simp [isIdle]

theorem slash_notMem_of_isIdle {q : Text} (h : isIdle q = true) : '/' ∉ q := by
  rcases isIdle_iff.1 h with rfl | rfl <;> decide

theorem pieces_of_notMem {s : Text} (h : '/' ∉ s) : pieces s = [s] :=
  List.splitOn_eq_singleton h

theorem pieces_injective : Function.Injective pieces := by
  intro p q h
  have hjoin : ∀ s : Text, ['/'].intercalate (pieces s) = s := fun s => List.intercalate_splitOn '/'
  rw [← hjoin p, h, hjoin q]

theorem pieces_flatMap_append {l : List Text} (h : ∀ q ∈ l, '/' ∉ q) (s : Text) :
    pieces (l.flatMap (· ++ ['/']) ++ s) = l ++ pieces s := by
  induction l with
  | nil => rfl
  | cons q l ih =>
    have hsplit : (q :: l).flatMap (· ++ ['/']) ++ s =
        q ++ '/' :: (l.flatMap (· ++ ['/']) ++ s) := by simp
    rw [hsplit, pieces_append_slash, pieces_of_notMem (h q List.mem_cons_self),
      ih fun r hr => h r (List.mem_cons_of_mem _ hr)]
    rfl

theorem pieces_append_flatMap {l : List Text} (h : ∀ q ∈ l, '/' ∉ q) (s : Text) :
    pieces (s ++ l.flatMap ('/' :: ·)) = pieces s ++ l := by
  induction l generalizing s with
  | nil => simp
  | cons q l ih =>
    rw [List.flatMap_cons, List.cons_append, pieces_append_slash,
      ih fun r hr => h r (List.mem_cons_of_mem _ hr), pieces_of_notMem (h q List.mem_cons_self)]
    rfl

theorem endsIn_iff {p piece : Text} : EndsIn p piece ↔
    ∃ before idle, pieces p = before ++ piece :: idle ∧ ∀ q ∈ idle, isIdle q = true := by
  constructor
  · rintro ⟨dirs, _, rfl, hdirs, hpiece, idle, rfl, hidle⟩
    have hidle' : ∀ q ∈ idle, isIdle q = true := fun q hq => isIdle_iff.2 (hidle q hq)
    have hend : pieces (piece ++ idle.flatMap ('/' :: ·)) = piece :: idle := by
      rw [pieces_append_flatMap fun q hq => slash_notMem_of_isIdle (hidle' q hq),
        pieces_of_notMem hpiece]
      rfl
    rcases hdirs with rfl | hlast
    · exact ⟨[], idle, hend, hidle'⟩
    · obtain ⟨dirs, rfl⟩ := List.getLast?_eq_some_iff.1 hlast
      refine ⟨pieces dirs, idle, ?_, hidle'⟩
      rw [List.append_assoc, List.singleton_append, pieces_append_slash, hend]
  · rintro ⟨before, idle, hp, hidle⟩
    have hslash : ∀ q ∈ before ++ piece :: idle, '/' ∉ q :=
      fun q hq => slash_notMem_of_mem_pieces (hp ▸ hq)
    have hpiece : '/' ∉ piece := hslash piece (by simp)
    -- the text is spelt out of its pieces, and told from others by them
    refine ⟨before.flatMap (· ++ ['/']), idle.flatMap ('/' :: ·), pieces_injective ?_, ?_, hpiece,
      idle, rfl, fun q hq => isIdle_iff.1 (hidle q hq)⟩
    · rw [pieces_flatMap_append fun q hq => hslash q (List.mem_append_left _ hq),
        pieces_append_flatMap fun q hq => slash_notMem_of_isIdle (hidle q hq),
        pieces_of_notMem hpiece, hp]
      rfl
    · rcases List.eq_nil_or_concat' before with rfl | ⟨init, q, rfl⟩
      · exact .inl rfl
      · exact .inr (by simp)

/-- with the idle pieces left out at the end, another piece is the last one -/
theorem endsIn_iff_dropWhile {p piece : Text} (h : isIdle piece = false) :
    EndsIn p piece ↔ ∃ before, (pieces p).reverse.dropWhile isIdle = piece :: before := by
  rw [endsIn_iff]
  constructor
  · rintro ⟨before, idle, hp, hidle⟩
    refine ⟨before.reverse, ?_⟩
    have hrev : (pieces p).reverse = idle.reverse ++ piece :: before.reverse := by simp [hp]
    rw [hrev, List.dropWhile_append_of_pos fun q hq => hidle q (List.mem_reverse.1 hq)]
    exact List.dropWhile_cons_of_neg (by simp [h])
  · rintro ⟨before, hd⟩
    obtain ⟨idle, hp, hidle⟩ := exists_pieces_of_dropWhile hd
    exact ⟨before.reverse, idle, hp, hidle⟩

/-- a path of idle pieces alone; a slash in front makes it one of idle slashes -/
theorem idle_slash_cons_iff {p : Text} :
    Idle ('/' :: p) ↔ (pieces p).reverse.dropWhile isIdle = [] := by
  have hall : (pieces p).reverse.dropWhile isIdle = [] ↔ ∀ q ∈ pieces p, isIdle q = true := by
    simp
  have hslash (l : List Text) (hl : ∀ q ∈ l, isIdle q = true) :
      pieces (l.flatMap ('/' :: ·)) = [] :: l :=
    pieces_append_flatMap (fun q hq => slash_notMem_of_isIdle (hl q hq)) []
  have hp : pieces ('/' :: p) = [] :: pieces p := pieces_append_slash [] p
  rw [hall]
  constructor
  · rintro ⟨l, hl, hidle⟩
    have hidle' : ∀ q ∈ l, isIdle q = true := fun q hq => isIdle_iff.2 (hidle q hq)
    rw [hl, hslash l hidle'] at hp
    rwa [← (List.cons.inj hp).2]
  · intro hidle
    refine ⟨pieces p, pieces_injective ?_, fun q hq => isIdle_iff.1 (hidle q hq)⟩
    rw [hp, hslash _ hidle]

theorem lastName_iff_dropWhile {p name : Text} : LastName p name ↔
    name ≠ ['.', '.'] ∧ ∃ before, (pieces p).reverse.dropWhile isIdle = name :: before := by
  constructor
  · rintro ⟨hend, hnil, hdot, hup⟩
    have hidle : isIdle name = false :=
      Bool.eq_false_iff.2 fun h => (isIdle_iff.1 h).elim hnil hdot
    exact ⟨hup, (endsIn_iff_dropWhile hidle).1 hend⟩
  · rintro ⟨hup, before, hd⟩
    have hidle := isIdle_of_dropWhile hd
    refine ⟨(endsIn_iff_dropWhile hidle).2 ⟨before, hd⟩, ?_, ?_, hup⟩
    · rintro rfl
      cases hidle
    · rintro rfl
      cases hidle

/-- **The last name of a path is its file name.** -/
theorem lastName_iff {p name : Text} : LastName p name ↔ fileName? p = some name := by
  rw [lastName_iff_dropWhile, fileName?_eq]
  cases hd : (pieces p).reverse.dropWhile isIdle with
  | nil => simp
  | cons q before =>
    by_cases hup : q = ['.', '.']
    · simp only [hup, ↓reduceIte, List.cons.injEq, reduceCtorEq, iff_false]
      rintro ⟨hne, _, rfl, -⟩
      exact hne rfl
    · simp only [hup, ↓reduceIte, List.cons.injEq, Option.some.injEq]
      constructor
      · rintro ⟨-, _, rfl, -⟩
        rfl
      · rintro rfl
        exact ⟨hup, before, rfl, rfl⟩

instance (p name : Text) : Decidable (LastName p name) := decidable_of_iff _ lastName_iff.symm

theorem LastName.unique {p name other : Text} (h : LastName p name) (h' : LastName p other) :
    name = other :=
  Option.some.inj ((lastName_iff.1 h).symm.trans (lastName_iff.1 h'))

/-- a path without a last name climbs at its end, or goes nowhere at all -/
theorem not_exists_lastName_iff {p : Text} :
    (¬ ∃ name, LastName p name) ↔ EndsIn p ['.', '.'] ∨ Idle ('/' :: p) := by
  have hnone : (¬ ∃ name, LastName p name) ↔ fileName? p = none := by
    rw [Option.eq_none_iff_forall_ne_some, not_exists]
    exact forall_congr' fun name => not_congr lastName_iff
  rw [hnone, fileName?_eq, endsIn_iff_dropWhile (by decide), idle_slash_cons_iff]
  cases (pieces p).reverse.dropWhile isIdle with
  | nil => simp
  | cons q before => by_cases hup : q = ['.', '.'] <;> simp [hup]

/-! ## extensions -/

theorem splitExtension_eq_some_iff {name ending : Text} : (splitExtension name).2 = some ending ↔
    ∃ stem, stem ≠ [] ∧ '.' ∉ ending ∧ name = stem ++ '.' :: ending := by
  constructor
  · intro h
    have hdot : '.' ∈ name.tail := by
      refine Classical.not_not.1 fun hdot => ?_
      rw [splitExtension_eq_none_iff.2 hdot] at h
      cases h
    obtain ⟨stem, ending', hstem, hending, rfl⟩ := exists_append_of_dot_mem_tail hdot
    rw [splitExtension_append hstem hending] at h
    obtain rfl := Option.some.inj h
    exact ⟨stem, hstem, hending, rfl⟩
  · rintro ⟨stem, hstem, hending, rfl⟩
    rw [splitExtension_append hstem hending]

theorem extension?_eq_some_iff {p ending : Text} : extension? p = some ending ↔
    ∃ stem, LastName p (stem ++ '.' :: ending) ∧ stem ≠ [] ∧ '.' ∉ ending := by
  constructor
  · intro h
    obtain ⟨name, hname, hsplit⟩ := Option.bind_eq_some_iff.1 h
    obtain ⟨stem, hstem, hending, rfl⟩ := splitExtension_eq_some_iff.1 hsplit
    exact ⟨stem, lastName_iff.2 hname, hstem, hending⟩
  · rintro ⟨stem, hname, hstem, hending⟩
    rw [extension?, lastName_iff.1 hname]
    exact splitExtension_eq_some_iff.2 ⟨stem, hstem, hending, rfl⟩

section
variable {extensions : List Text} {p : Text}

/-- a path matches by what stands behind the last dot of its last name -/
theorem matchesExtension_iff : matchesExtension extensions p = true ↔
    ∃ stem ending, LastName p (stem ++ '.' :: ending) ∧ stem ≠ [] ∧ '.' ∉ ending ∧
      ∃ e ∈ extensions, Text.SameButCase ending (e.dropWhile (· = '.')) := by
  have hany (ending : Text) :
      (extensions.any fun e => lower (e.dropWhile (· = '.')) == lower ending) = true ↔
        ∃ e ∈ extensions, Text.SameButCase ending (e.dropWhile (· = '.')) := by
    rw [List.any_eq_true]
    refine exists_congr fun e => and_congr_right fun _ => ?_
    rw [beq_iff_eq, Text.sameButCase_iff, eq_comm]
  unfold matchesExtension
  constructor
  · intro h
    split at h
    · cases h
    · next ending hext =>
      obtain ⟨stem, hname, hstem, hending⟩ := extension?_eq_some_iff.1 hext
      exact ⟨stem, ending, hname, hstem, hending, (hany ending).1 h⟩
  · rintro ⟨stem, ending, hname, hstem, hending, he⟩
    rw [extension?_eq_some_iff.2 ⟨stem, hname, hstem, hending⟩]
    exact (hany ending).2 he

/-- an extension as it is seen in file names: a dot, and no other one behind it -/
def IsExtension (e : Text) : Prop := ∃ ending, e = '.' :: ending ∧ '.' ∉ ending

theorem dropWhile_dot_of_notMem {ending : Text} (h : '.' ∉ ending) :
    ('.' :: ending).dropWhile (· = '.') = ending := by
  rw [List.dropWhile_cons_of_pos rfl]
  cases ending with
  | nil => rfl
  | cons c ending =>
    have hc : c ≠ '.' := Ne.symm (List.ne_of_not_mem_cons h)
    exact List.dropWhile_cons_of_neg (by simpa using hc)

theorem matchesExtension_iff_suffix (h : ∀ e ∈ extensions, IsExtension e) :
    matchesExtension extensions p = true ↔
      ∃ stem suffix, LastName p (stem ++ suffix) ∧ stem ≠ [] ∧
        ∃ e ∈ extensions, Text.SameButCase suffix e := by
  rw [matchesExtension_iff]
  constructor
  · rintro ⟨stem, ending, hname, hstem, -, e, he, hsame⟩
    obtain ⟨ending', rfl, hdot⟩ := h e he
    rw [dropWhile_dot_of_notMem hdot] at hsame
    exact ⟨stem, '.' :: ending, hname, hstem, _, he,
      Text.sameButCase_dot_cons_iff.2 ⟨_, rfl, hsame⟩⟩
  · rintro ⟨stem, suffix, hname, hstem, e, he, hsame⟩
    obtain ⟨ending', rfl, hdot⟩ := h e he
    obtain ⟨ending, rfl, hsame'⟩ := Text.sameButCase_dot_cons_iff.1 hsame
    refine ⟨stem, ending, hname, hstem, hsame'.dot_notMem hdot, _, he, ?_⟩
    rwa [dropWhile_dot_of_notMem hdot]

-- with a second dot the extension would be a suffix of names that it does not match
example : matchesExtension [".tar.gz".toList] "a.tar.gz".toList = false := by decide

/-- the case of the last name does not count, and nothing else of the path does -/
theorem matchesExtension_of_sameButCase {q name other : Text} (hp : LastName p name)
    (hq : LastName q other) (hsame : Text.SameButCase other name)
    (h : matchesExtension extensions p = true) : matchesExtension extensions q = true := by
  obtain ⟨stem, ending, hname, hstem, hending, e, he, hext⟩ := matchesExtension_iff.1 h
  obtain rfl := hp.unique hname
  -- the other name has its last dot in the same place
  obtain ⟨stem', suffix, rfl, hstem', hsuffix⟩ := hsame.exists_append
  obtain ⟨ending', rfl, hending'⟩ := Text.sameButCase_dot_cons_iff.1 hsuffix
  have hne : stem' ≠ [] := by
    rintro rfl
    exact hstem (List.forall₂_nil_left_iff.1 hstem')
  exact matchesExtension_iff.2
    ⟨stem', ending', hq, hne, hending'.dot_notMem hending, e, he, hending'.trans hext⟩

end

end Path

/-! ## files that hold templates -/

namespace Template

theorem isExtension_of_mem {e : Text} (h : e ∈ extensions) : Path.IsExtension e := by
  have hmem : e = ".mst".toList ∨ e = ".mustache".toList := by simpa [extensions] using h
  rcases hmem with rfl | rfl
  · exact ⟨"mst".toList, rfl, by decide⟩
  · exact ⟨"mustache".toList, rfl, by decide⟩

theorem supportsPath_iff {p : Text} : supportsPath p = true ↔
    ∃ stem suffix, Path.LastName p (stem ++ suffix) ∧ stem ≠ [] ∧
      (Text.SameButCase suffix ".mst".toList ∨ Text.SameButCase suffix ".mustache".toList) := by
  rw [supportsPath, Path.matchesExtension_iff_suffix fun _ => isExtension_of_mem]
  simp [extensions]

-- a file name that is nothing but the extension is a hidden file without one
example : supportsPath "views/.mst".toList = false := by decide

end Template

namespace Path

/-! ## the law of suffixes -/

/-- **An extension is a suffix of the last name, in any case.**  For extensions with one dot, in
front: a path matches exactly if its last name is a stem, which is not empty, and one of the
extensions behind it, in capital or small letters.  There is at most one last name, and none exactly
if the path climbs at its end or goes nowhere.  So paths whose last names differ in case alone match
or fail together, whatever their directories; and so do lists with the same extensions. -/
theorem matchesExtension_bySuffix {extensions : List Text}
    (h : ∀ e ∈ extensions, IsExtension e) (p : Text) :
    (matchesExtension extensions p = true ↔ ∃ stem suffix, LastName p (stem ++ suffix) ∧
      stem ≠ [] ∧ ∃ e ∈ extensions, Text.SameButCase suffix e) ∧
    (∀ name other, LastName p name → LastName p other → name = other) ∧
    ((¬ ∃ name, LastName p name) ↔ EndsIn p ['.', '.'] ∨ Idle ('/' :: p)) ∧
    (∀ q name other, LastName p name → LastName q other → Text.SameButCase name other →
      matchesExtension extensions p = matchesExtension extensions q) ∧
    ∀ others : List Text, (∀ e, e ∈ extensions ↔ e ∈ others) →
      matchesExtension extensions p = matchesExtension others p := by
  refine ⟨matchesExtension_iff_suffix h, fun _ _ => LastName.unique, not_exists_lastName_iff,
    ?alike, ?reordered⟩
  case alike =>
    intro q name other hp hq hsame
    exact Bool.eq_iff_iff.2 ⟨matchesExtension_of_sameButCase hp hq hsame.symm,
      matchesExtension_of_sameButCase hq hp hsame⟩
  case reordered =>
    intro others hothers
    rw [Bool.eq_iff_iff, matchesExtension_iff, matchesExtension_iff]
    simp only [hothers]

-- one name in two cases, in two directories; and a path that climbs behind such a name
theorem matchesExtension_bySuffix_page :
    (∀ e ∈ Template.extensions, IsExtension e) ∧
    matchesExtension Template.extensions "./views/Page.v2.Mst/.".toList = true ∧
    matchesExtension Template.extensions "/srv//page.V2.mST".toList = true ∧
    matchesExtension Template.extensions "views/page.mst/..".toList = false := by
  have h : ∀ e ∈ Template.extensions, IsExtension e := fun _ => Template.isExtension_of_mem
  obtain ⟨hsuffix, -, -, halike, -⟩ := matchesExtension_bySuffix h "./views/Page.v2.Mst/.".toList
  obtain ⟨hclimb, -, hnone, -⟩ := matchesExtension_bySuffix h "views/page.mst/..".toList
  have hpage : matchesExtension Template.extensions "./views/Page.v2.Mst/.".toList = true :=
    hsuffix.2 ⟨"Page.v2".toList, ".Mst".toList, by decide, by decide, ".mst".toList, by decide,
      by decide⟩
  have hsame := halike "/srv//page.V2.mST".toList "Page.v2.Mst".toList "page.V2.mST".toList
    (by decide) (by decide) (by decide)
  have hends : EndsIn "views/page.mst/..".toList ['.', '.'] :=
    ⟨"views/page.mst/".toList, [], rfl, .inr rfl, by decide, [], rfl, by simp⟩
  refine ⟨h, hpage, hsame.symm.trans hpage, Bool.eq_false_iff.2 fun hmatch => ?_⟩
  obtain ⟨stem, suffix, hname, -⟩ := hclimb.1 hmatch
  exact hnone.2 (.inl hends) ⟨_, hname⟩

end Path
end Mustache
