import Mathlib.Data.List.Basic
import Mustache.Proofs.Markup
import Mustache.Proofs.Similarity

/-!
# Data that is not named

What a map holds under a key that no name begins with does not count for a rendering.  The map
itself may be in many frames, since a block of the implicit name puts it there again, and it may
be asked for its text or its truth; but the text of a map is empty and every map is true.  So two
maps that agree on the keys that are named can stand for each other in any frame.

* `Interchanged`      equal values, or one map and the other one in its place
* `render_agreeing`   such maps are rendered alike
-/

namespace Mustache

/-- the same value, or the second map where the first one was -/
def Interchanged (es fs : List (Text × Value)) (v w : Value) : Prop :=
  v = w ∨ (v = .map es ∧ w = .map fs)

variable {es fs : List (Text × Value)}

theorem interchanged_refl (v : Value) : Interchanged es fs v v := .inl rfl

theorem similarity_interchanged (es fs : List (Text × Value)) :
    Similarity (Interchanged es fs) := by
  constructor
  case text =>
    rintro v w (rfl | ⟨rfl, rfl⟩)
    · rfl
    · rw [Value.text, Value.text]
  case truthy =>
    rintro v w (rfl | ⟨rfl, rfl⟩)
    · rfl
    · rfl
  case items =>
    rintro v w (rfl | ⟨rfl, rfl⟩)
    · cases v.items? with
      | none => exact .none
      | some vs => exact .some (List.forall₂_same.2 fun v _ => interchanged_refl v)
    · exact .none

/-- below a key on which the maps agree, nothing is left of the difference -/
theorem finds_interchanged {head : Text}
    (hagree : (Value.map es).get? head = (Value.map fs).get? head) (keys : List Text) :
    Frames.Finds (Interchanged es fs) (.dotted head keys) := by
  intro f g hfg
  have hget : ∀ v w, Interchanged es fs v w → Option.Rel Eq (v.get? head) (w.get? head) := by
    rintro v w (rfl | ⟨rfl, rfl⟩)
    · cases v.get? head with
      | none => exact .none
      | some u => exact .some rfl
    · rw [hagree]
      cases (Value.map fs).get? head with
      | none => exact .none
      | some u => exact .some rfl
  have hnearest : f.nearest? head = g.nearest? head := by
    rcases rel_cases (hfg.nearest? hget) with ⟨hf, hg⟩ | ⟨v, _, hf, hg, rfl⟩
    · rw [hf, hg]
    · rw [hf, hg]
  rw [Frames.lookup, Frames.lookup, hnearest]
  cases (g.nearest? head).bind fun v => v.getPath? keys with
  | none => exact .none
  | some v => exact .some (interchanged_refl v)

/-- **Only what is named counts.**  Two maps that agree on every key that a name of the tree or of
a template begins with give the same text, or the same failure, also where the implicit name stands
for the map itself. -/
theorem render_agreeing {partials : Partials} {t : Tree}
    (hagree : ∀ n head keys, Occurs partials t n → n.name? = some (.dotted head keys) →
      (Value.map es).get? head = (Value.map fs).get? head) (maxDepth : Nat) :
    render partials maxDepth t (.map es) = render partials maxDepth t (.map fs) := by
  have hfinds : ∀ n, Occurs partials t n → ∀ name, n.name? = some name →
      Frames.Finds (Interchanged es fs) name := by
    intro n hocc name hname
    cases name with
    | implicit => exact Frames.finds_implicit
    | dotted head keys => exact finds_interchanged (hagree n head keys hocc hname) keys
  have hroot : Interchanged es fs (.map es) (.map fs) := .inr ⟨rfl, rfl⟩
  exact render_similar (similarity_interchanged es fs) (fun n hn => hfinds n (.inl hn))
    (fun name u hu n hn => hfinds n (.inr ⟨name, u, hu, hn⟩)) hroot maxDepth

/-- a block of the data itself, around its text, its title and a template -/
def card : Tree :=
  [.block .implicit false
    [.var .implicit false, .var (.dotted ['t'] []) true, .inclusion "line".toList none]]

/-- the data at hand, and the title once more -/
def cardLine : PartialTable :=
  ⟨[⟨"line".toList, "{{.}}/{{#t}}{{.}}{{/t}}".toList,
    [.var .implicit true, .text ['/'],
      .block (.dotted ['t'] []) false [.var .implicit true]]⟩]⟩

def titled (note : Value) : List (Text × Value) :=
  [("note".toList, note), (['t'], .string ['T'])]

-- the note is a text here and a list there, and no name begins with its key
theorem render_agreeing_card :
    (∀ n head keys, Occurs cardLine.tree? card n → n.name? = some (.dotted head keys) →
      (Value.map (titled (.string ['x']))).get? head = (Value.map (titled (.list []))).get? head) ∧
    render cardLine.tree? 1 card (.map (titled (.string ['x']))) = .ok "T/T".toList ∧
    render cardLine.tree? 1 card (.map (titled (.list []))) = .ok "T/T".toList := by
  have htitle : ∀ n, Occurs cardLine.tree? card n → n.name? = none ∨ n.name? = some .implicit ∨
      n.name? = some (.dotted ['t'] []) := by
    have htree : ∀ n ∈ card.nodes, n.name? = none ∨ n.name? = some .implicit ∨
        n.name? = some (.dotted ['t'] []) := by decide
    have htable : ∀ p ∈ cardLine.partials, ∀ n ∈ p.tree.nodes, n.name? = none ∨
        n.name? = some .implicit ∨ n.name? = some (.dotted ['t'] []) := by decide
    rintro n (hn | ⟨name, u, hu, hn⟩)
    · exact htree n hn
    · obtain ⟨p, hp, -, rfl⟩ := PartialTable.exists_of_tree?_eq_some hu
      exact htable p hp n hn
  have hagree : ∀ n head keys, Occurs cardLine.tree? card n →
      n.name? = some (.dotted head keys) → (Value.map (titled (.string ['x']))).get? head =
        (Value.map (titled (.list []))).get? head := by
    intro n head keys hocc hname
    rcases htitle n hocc with hnone | himplicit | hdotted
    · rw [hnone] at hname
      cases hname
    · rw [himplicit] at hname
      cases hname
    · rw [hdotted] at hname
      cases hname
      rfl
  have htext : render cardLine.tree? 1 card (.map (titled (.list []))) = .ok "T/T".toList := by rfl
  exact ⟨hagree, (render_agreeing hagree 1).trans htext, htext⟩

end Mustache
