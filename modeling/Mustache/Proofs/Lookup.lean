import Mathlib.Data.List.Basic
import Mustache.Frames

/-!
# Looking up names

The head of a name is found in the nearest frame that has it, and this frame decides for good: the
keys behind the head are followed in the value found there, and where they lead nowhere no other
frame is asked.  So a longer name is looked up by looking up its beginning and following the rest.

* `Name.Cut`                      keys as they are when a text is cut at its dots
* `Name.ofText_toText`            such a name is read again from its text
* `Name.segments_ofText_append`   a text with a dot in it, and the two parts
* `Value.isAtom`                  values without keys and elements
* `Frames.lookup_eq_some_iff`     what a name with a head leads to
* `lookup_of_head`                how names with a head are looked up and read
-/

namespace Mustache

/-! ## names and their texts -/

namespace Name

/-- No key has a dot in it; and of two empty keys the text would be that of the implicit name. -/
def Cut (n : Name) : Prop := (∀ key ∈ n.segments, '.' ∉ key) ∧ n.segments ≠ [[], []]

theorem segments_ofText {s : Text} (h : s ≠ ['.']) : (ofText s).segments = s.splitOn '.' := by
  rw [ofText, if_neg h, segments_ofSegments]

theorem ofText_ne_implicit {s : Text} (h : s ≠ ['.']) : ofText s ≠ implicit := by
  rw [ne_eq, ← segments_eq_nil_iff, segments_ofText h]
  exact List.splitOn_ne_nil '.' s

theorem segments_ofText_append {a b : Text} (ha : a ≠ ['.']) (hab : ¬(a = [] ∧ b = [])) :
    (ofText (a ++ '.' :: b)).segments = (ofText a).segments ++ b.splitOn '.' := by
  have hne : a ++ '.' :: b ≠ ['.'] := by
    intro h
    have hlength := congrArg List.length h
    simp only [List.length_append, List.length_cons, List.length_nil] at hlength
    exact hab ⟨List.length_eq_zero_iff.1 (by omega), List.length_eq_zero_iff.1 (by omega)⟩
  rw [segments_ofText hne, segments_ofText ha, List.splitOn_append_cons_self]

theorem cut_ofText (s : Text) : (ofText s).Cut := by
  by_cases h : s = ['.']
  · subst h
    exact ⟨fun key hkey => absurd hkey List.not_mem_nil, by decide⟩
  · rw [Cut, segments_ofText h]
    refine ⟨fun key hkey => Text.notMem_of_mem_splitOn hkey, fun htwo => h ?_⟩
    have hjoin : ['.'].intercalate (s.splitOn '.') = s := List.intercalate_splitOn '.'
    rw [htwo] at hjoin
    exact hjoin.symm

theorem splitOn_toText {n : Name} (h : n.Cut) (hne : n.segments ≠ []) :
    n.toText.splitOn '.' = n.segments := by
  cases n with
  | implicit => exact absurd rfl hne
  | dotted head keys => exact List.splitOn_intercalate '.' h.1 hne

theorem ofText_toText {n : Name} (h : n.Cut) : ofText n.toText = n := by
  by_cases hnil : n.segments = []
  · rw [(segments_eq_nil_iff n).1 hnil]
    rfl
  · have hsplit := splitOn_toText h hnil
    have hdot : n.toText ≠ ['.'] := by
      intro hdot
      rw [hdot] at hsplit
      exact h.2 hsplit.symm
    rw [ofText, if_neg hdot, hsplit, ofSegments_segments]

end Name

/-! ## values -/

/-- null, a boolean, a number or a string: what has neither keys nor elements -/
def Value.isAtom : Value → Bool
  | null => true
  | bool _ => true
  | number _ => true
  | string _ => true
  | list _ => false
  | map _ => false

theorem Value.get?_of_isAtom {v : Value} (h : v.isAtom = true) (key : Text) :
    v.get? key = none := by
  cases v with
  | list items => cases h
  | map entries => cases h
  | _ => rfl

/-! ## frames -/

namespace Frames

theorem nearest?_eq_some_iff {f : Frames} {key : Text} {x : Value} :
    f.nearest? key = some x ↔ ∃ before v after, f.toList = before ++ v :: after ∧
      (∀ u ∈ before, u.get? key = none) ∧ v.get? key = some x := by
  rw [nearest?, List.findSome?_eq_some_iff]
  constructor
  · rintro ⟨before, v, after, hsplit, hv, hbefore⟩
    exact ⟨before, v, after, hsplit, hbefore, hv⟩
  · rintro ⟨before, v, after, hsplit, hbefore, hv⟩
    exact ⟨before, v, after, hsplit, hv, hbefore⟩

variable {f : Frames} {n : Name} {head : Text} {keys : List Text}

theorem lookup_of_segments (h : n.segments = head :: keys) :
    f.lookup n = (f.nearest? head).bind fun v => v.getPath? keys := by
  rw [← Name.ofSegments_segments n, h]
  rfl

theorem lookup_eq_some_iff (h : n.segments = head :: keys) {w : Value} :
    f.lookup n = some w ↔ ∃ before v after x, f.toList = before ++ v :: after ∧
      (∀ u ∈ before, u.get? head = none) ∧ v.get? head = some x ∧ x.getPath? keys = some w := by
  rw [lookup_of_segments h, Option.bind_eq_some_iff]
  constructor
  · rintro ⟨x, hx, hw⟩
    obtain ⟨before, v, after, hsplit, hbefore, hv⟩ := nearest?_eq_some_iff.1 hx
    exact ⟨before, v, after, x, hsplit, hbefore, hv, hw⟩
  · rintro ⟨before, v, after, x, hsplit, hbefore, hv, hw⟩
    exact ⟨x, nearest?_eq_some_iff.2 ⟨before, v, after, hsplit, hbefore, hv⟩, hw⟩

/-- a frame that has the head hides the frames below, whether or not the other keys lead on -/
theorem lookup_push_of_some (h : n.segments = head :: keys) {v w : Value}
    (hv : v.get? head = some w) : (f.push v).lookup n = w.getPath? keys := by
  rw [lookup_of_segments h, nearest?_push, hv]
  rfl

theorem lookup_push_of_none (h : n.segments = head :: keys) {v : Value}
    (hv : v.get? head = none) : (f.push v).lookup n = f.lookup n := by
  rw [lookup_of_segments h, lookup_of_segments h, nearest?_push, hv, Option.none_or]

theorem lookup_push_of_isAtom {v : Value} (hv : v.isAtom = true) (hn : n ≠ .implicit) :
    (f.push v).lookup n = f.lookup n := by
  cases n with
  | implicit => exact absurd rfl hn
  | dotted head keys => exact lookup_push_of_none rfl (Value.get?_of_isAtom hv head)

/-- the rest of a longer name is followed from where its beginning leads -/
theorem lookup_of_segments_append {m : Name} {rest : List Text} (hm : m ≠ .implicit)
    (h : n.segments = m.segments ++ rest) :
    f.lookup n = (f.lookup m).bind fun w => w.getPath? rest := by
  cases m with
  | implicit => exact absurd rfl hm
  | dotted head keys =>
    rw [lookup_of_segments h, lookup, Option.bind_assoc]
    exact congrArg _ (funext fun v => Value.getPath?_append v keys rest)

end Frames

/-- **The nearest frame that has the head of a name decides.**  A pushed value that has the head
hides all frames below, also where the other keys lead nowhere in it; one that has not, as every
value without keys and elements, hides nothing.  So a name with a dot in its text is looked up by
looking up what stands before the dot and following the rest; and names and their texts stand for
each other. -/
theorem lookup_of_head (f : Frames) :
    (∀ n head keys, n.segments = head :: keys → ∀ v,
      (∀ w, v.get? head = some w → (f.push v).lookup n = w.getPath? keys) ∧
      (v.get? head = none → (f.push v).lookup n = f.lookup n)) ∧
    (∀ n head keys, n.segments = head :: keys → ∀ w, f.lookup n = some w ↔
      ∃ before v after x, f.toList = before ++ v :: after ∧ (∀ u ∈ before, u.get? head = none) ∧
        v.get? head = some x ∧ x.getPath? keys = some w) ∧
    (∀ v n, v.isAtom = true → n ≠ .implicit → (f.push v).lookup n = f.lookup n) ∧
    (∀ a b, a ≠ ['.'] → ¬(a = [] ∧ b = []) →
      f.lookup (.ofText (a ++ '.' :: b)) =
        (f.lookup (.ofText a)).bind fun w => w.getPath? (b.splitOn '.')) ∧
    (∀ s, (Name.ofText s).Cut ∧ (Name.ofText s).toText = s) ∧
    ∀ n : Name, n.Cut → Name.ofText n.toText = n := by
  refine ⟨?push, ?nearest, ?atom, ?longer, ?text, fun n hn => Name.ofText_toText hn⟩
  case push =>
    intro n head keys hn v
    exact ⟨fun w hv => Frames.lookup_push_of_some hn hv, fun hv => Frames.lookup_push_of_none hn hv⟩
  case nearest => exact fun n head keys hn w => Frames.lookup_eq_some_iff hn
  case atom => exact fun v n hv hn => Frames.lookup_push_of_isAtom hv hn
  case longer =>
    intro a b ha hab
    exact Frames.lookup_of_segments_append (Name.ofText_ne_implicit ha)
      (Name.segments_ofText_append ha hab)
  case text => exact fun s => ⟨Name.cut_ofText s, Name.toText_ofText s⟩

/-- a person with a name, and above it one without, and a string -/
def persons : Frames :=
  ((Frames.ofRoot (.map [("person".toList, .map [("name".toList, .string "Ann".toList)])])).push
    (.map [("person".toList, .map [])])).push (.string "person".toList)

-- the string and an empty map hide nothing; the person without a name hides the one below
theorem lookup_of_head_persons :
    persons.lookup (.ofText "person.name".toList) = none ∧
    (persons.push (.map [])).lookup (.ofText "person".toList) = some (.map []) ∧
    persons.pop.pop.lookup (.ofText "person.name".toList) = some (.string "Ann".toList) ∧
    Name.ofText (Name.dotted "person".toList ["name".toList]).toText =
      .dotted "person".toList ["name".toList] := by
  obtain ⟨hpush, hnearest, -, -, -, hname⟩ := lookup_of_head persons
  obtain ⟨-, -, hatom, -⟩ := lookup_of_head persons.pop
  obtain ⟨hpush', -, -, hlonger, -⟩ := lookup_of_head persons.pop.pop
  refine ⟨?_, ?_, ?_, hname (.dotted "person".toList ["name".toList]) ⟨by decide, by decide⟩⟩
  · calc persons.lookup (.ofText "person.name".toList)
        = persons.pop.lookup (.ofText "person.name".toList) :=
          hatom (.string "person".toList) _ rfl (by decide)
      _ = (Value.map []).getPath? ["name".toList] :=
          (hpush' (.ofText "person.name".toList) "person".toList ["name".toList] rfl
            (.map [("person".toList, .map [])])).1 (.map []) rfl
      _ = none := rfl
  · calc (persons.push (.map [])).lookup (.ofText "person".toList)
        = persons.lookup (.ofText "person".toList) :=
          (hpush (.ofText "person".toList) "person".toList [] rfl (.map [])).2 rfl
      _ = some (.map []) :=
          (hnearest (.ofText "person".toList) "person".toList [] rfl (.map [])).2
            ⟨[.string "person".toList], .map [("person".toList, .map [])], _, .map [], rfl,
              List.forall_mem_singleton.2 rfl, rfl, rfl⟩
  · exact (hlonger "person".toList "name".toList (by decide) (by decide)).trans rfl

end Mustache
