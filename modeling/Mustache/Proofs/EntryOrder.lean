import Mathlib.Data.List.Basic
import Mustache.Proofs.Similarity

/-!
# The order of entries

A map is a list of entries, and the order in which they stand in it is an accident.  Here two data
are compared that differ in nothing but this order, in any of the maps inside them, and nothing is
found by which a template could tell them apart.

* `Value.Reordered`          the same value up to the order of entries, at every depth
* `Value.Reordered.get?`     with the same key one comes to such values again, or to none
* `similarity_reordered`     their text, their truth and their elements show no difference
* `render_reordered`         neither does a rendering
-/

namespace Mustache
namespace Value

/-- the keys of a map in the order of its entries -/
def keys (es : List (Text × Value)) : List Text := es.map Prod.fst

/-- The same value up to the order of entries in maps: equal scalars, lists with such elements one
by one, and maps with the same distinct keys and such values under each key. -/
inductive Reordered : Value → Value → Prop where
  | null : Reordered null null
  | bool (b : Bool) : Reordered (bool b) (bool b)
  | number (n : Number) : Reordered (number n) (number n)
  | string (s : Text) : Reordered (string s) (string s)
  | list {vs ws : List Value} : List.Forall₂ Reordered vs ws → Reordered (list vs) (list ws)
  | map {es fs : List (Text × Value)} : (keys es).Nodup → (keys es).Perm (keys fs) →
      (∀ key v w, (key, v) ∈ es → (key, w) ∈ fs → Reordered v w) → Reordered (map es) (map fs)

/-! ## entries -/

theorem mem_of_lookup {es : List (Text × Value)} {key : Text} {v : Value}
    (h : es.lookup key = some v) : (key, v) ∈ es := by
  obtain ⟨before, after, rfl, -⟩ := List.lookup_eq_some_iff.1 h
  exact List.mem_append_right _ List.mem_cons_self

theorem lookup_eq_none_iff {es : List (Text × Value)} {key : Text} :
    es.lookup key = none ↔ key ∉ keys es := by
  rw [List.lookup_eq_none_iff, keys, List.mem_map, not_exists]
  refine forall_congr' fun e => ?_
  rw [not_and]
  exact imp_congr_right fun _ => by rw [bne_iff_ne, ne_comm]

namespace Reordered
variable {v w : Value}

/-! ## keys -/

/-- under a key both maps have an entry, or neither has -/
theorem lookup {es fs : List (Text × Value)} (hkeys : (keys es).Perm (keys fs))
    (hvalues : ∀ key v w, (key, v) ∈ es → (key, w) ∈ fs → Reordered v w) (key : Text) :
    Option.Rel Reordered (es.lookup key) (fs.lookup key) := by
  cases he : es.lookup key with
  | none =>
    have hf : fs.lookup key = none := by
      rw [lookup_eq_none_iff, ← hkeys.mem_iff, ← lookup_eq_none_iff, he]
    rw [hf]
    exact .none
  | some v =>
    cases hf : fs.lookup key with
    | none =>
      rw [lookup_eq_none_iff, ← hkeys.mem_iff, ← lookup_eq_none_iff, he] at hf
      cases hf
    | some w => exact .some (hvalues key v w (mem_of_lookup he) (mem_of_lookup hf))

theorem getElem? {vs ws : List Value} (h : List.Forall₂ Reordered vs ws) (i : Nat) :
    Option.Rel Reordered vs[i]? ws[i]? := by
  induction h generalizing i with
  | nil => exact .none
  | cons hhead _ ih =>
    cases i with
    | zero => exact .some hhead
    | succ i => exact ih i

theorem get? (h : Reordered v w) (key : Text) :
    Option.Rel Reordered (v.get? key) (w.get? key) := by
  cases h with
  | null => exact .none
  | bool b => exact .none
  | number n => exact .none
  | string s => exact .none
  | @list vs ws hvs =>
    show Option.Rel Reordered ((Text.index? key).bind fun i => vs[i]?)
      ((Text.index? key).bind fun i => ws[i]?)
    cases Text.index? key with
    | none => exact .none
    | some i => exact getElem? hvs i
  | map _ hkeys hvalues => exact lookup hkeys hvalues key

theorem getPath? (h : Reordered v w) (path : List Text) :
    Option.Rel Reordered (v.getPath? path) (w.getPath? path) := by
  induction path generalizing v w with
  | nil =>
    rw [getPath?_nil, getPath?_nil]
    exact .some h
  | cons key path ih =>
    rw [getPath?_cons, getPath?_cons]
    rcases rel_cases (h.get? key) with ⟨hv, hw⟩ | ⟨x, y, hv, hw, hxy⟩
    · rw [hv, hw]
      exact .none
    · rw [hv, hw]
      exact ih hxy

/-! ## text, truth and elements -/

mutual

/-- the text of a map does not tell what is in it -/
theorem text_eq {v w : Value} : Reordered v w → v.text = w.text
  | .null => rfl
  | .bool _ => rfl
  | .number _ => rfl
  | .string _ => rfl
  | .list h => by rw [text, text, texts_eq h]
  | .map _ _ _ => by rw [text, text]

theorem texts_eq {vs ws : List Value} : List.Forall₂ Reordered vs ws → texts vs = texts ws
  | .nil => rfl
  | .cons h hs => by rw [texts, texts, text_eq h, texts_eq hs]

end

theorem truthy_eq (h : Reordered v w) : v.truthy = w.truthy := by
  cases h with
  | @list vs ws hvs => cases hvs <;> rfl
  | _ => rfl

theorem items? (h : Reordered v w) :
    Option.Rel (List.Forall₂ Reordered) v.items? w.items? := by
  cases h with
  | list hvs => exact .some hvs
  | _ => exact .none

end Reordered
end Value

open Value

theorem similarity_reordered : Similarity Reordered :=
  ⟨Reordered.text_eq, Reordered.truthy_eq, Reordered.items?⟩

/-- every name is found alike: the nearest frame that has its head is the same, and from there the
same path is followed -/
theorem finds_reordered (name : Name) : Frames.Finds Reordered name := by
  cases name with
  | implicit => exact Frames.finds_implicit
  | dotted head path =>
    intro f g hfg
    rw [Frames.lookup, Frames.lookup]
    rcases rel_cases (hfg.nearest? fun v w h => h.get? head) with ⟨hf, hg⟩ | ⟨v, w, hf, hg, hvw⟩
    · rw [hf, hg]
      exact .none
    · rw [hf, hg]
      exact hvw.getPath? path

/-- **The order of entries does not count.**  Data that are the same up to the order of entries in
maps, at any depth, are rendered alike by every tree, with all templates and bounds: to the
same text, or to the same failure.  Keys and paths lead to such data again, and their truth and
their texts are equal. -/
theorem render_reordered {v w : Value} (h : Reordered v w) :
    (∀ (partials : Partials) (maxDepth : Nat) (t : Tree),
      render partials maxDepth t v = render partials maxDepth t w) ∧
    (∀ key, Option.Rel Reordered (v.get? key) (w.get? key)) ∧
    (∀ path, Option.Rel Reordered (v.getPath? path) (w.getPath? path)) ∧
    v.truthy = w.truthy ∧ v.text = w.text := by
  refine ⟨fun partials maxDepth t => ?_, h.get?, h.getPath?, h.truthy_eq, h.text_eq⟩
  exact render_similar similarity_reordered (fun _ _ name _ => finds_reordered name)
    (fun _ _ _ _ _ name _ => finds_reordered name) h maxDepth

/-- two entries the other way round -/
theorem reordered_swap {k l : Text} {v v' w w' : Value} (hkl : k ≠ l) (hv : Reordered v v')
    (hw : Reordered w w') : Reordered (.map [(k, v), (l, w)]) (.map [(l, w'), (k, v')]) := by
  refine .map (by simpa [keys] using hkl) (.swap _ _ _) fun key x y hx hy => ?_
  simp only [List.mem_cons, Prod.mk.injEq, List.not_mem_nil, or_false] at hx hy
  rcases hx with ⟨rfl, rfl⟩ | ⟨rfl, rfl⟩
  · rcases hy with ⟨h, -⟩ | ⟨-, rfl⟩
    · exact absurd h hkl
    · exact hv
  · rcases hy with ⟨-, rfl⟩ | ⟨h, -⟩
    · exact hw
    · exact absurd h.symm hkl

/-- a ware with its name and its price, inside a list, inside a map -/
def shop : Value :=
  .map [(['w'], .list [.map [(['n'], .string ['t']), (['p'], .number (.int 3))]]),
    (['s'], .string ['!'])]

/-- the same, both maps the other way round -/
def shopReversed : Value :=
  .map [(['s'], .string ['!']),
    (['w'], .list [.map [(['p'], .number (.int 3)), (['n'], .string ['t'])]])]

/-- the wares, the price of the first one, and the data as text -/
def priceList : Tree :=
  [.block (.dotted ['w'] []) false [.var (.dotted ['n'] []) true, .var (.dotted ['s'] []) true],
    .var (.dotted ['w'] [['0'], ['p']]) true, .var .implicit true]

theorem render_reordered_shop : Reordered shop shopReversed ∧
    render (fun _ => none) 0 priceList shop = .ok "t!3".toList ∧
    render (fun _ => none) 0 priceList shopReversed = .ok "t!3".toList ∧
    Option.Rel Reordered (shop.getPath? [['w'], ['0']]) (shopReversed.getPath? [['w'], ['0']]) := by
  have hware := reordered_swap (k := ['n']) (l := ['p']) (by decide) (.string ['t'])
    (.number (.int 3))
  have hshop : Reordered shop shopReversed :=
    reordered_swap (by decide) (.list (.cons hware .nil)) (.string ['!'])
  have htext : render (fun _ => none) 0 priceList shop = .ok "t!3".toList := by rfl
  obtain ⟨hrender, -, hpath, -⟩ := render_reordered hshop
  exact ⟨hshop, htext, (hrender _ _ _).symm.trans htext, hpath _⟩

end Mustache
