import Mustache.Text.Search

/-!
# Entities

Eight characters have a meaning of their own in HTML.  `escape` writes each of them as its
entity and every other character as it is; `unescape` reads the entities back.
-/

namespace Mustache.Text

/-- the escaped characters and their entities -/
def entities : List (Char × Text) :=
  [('&', "&amp;".toList), ('<', "&lt;".toList), ('>', "&gt;".toList), ('"', "&quot;".toList),
   ('\'', "&#39;".toList), ('/', "&#x2F;".toList), ('\x60', "&#x60;".toList),
   ('=', "&#x3D;".toList)]

def escapeChar (c : Char) : Text := (entities.lookup c).getD [c]

def escape (s : Text) : Text := s.flatMap escapeChar

theorem escape_cons (c : Char) (s : Text) : escape (c :: s) = escapeChar c ++ escape s := rfl
theorem escape_append (s t : Text) : escape (s ++ t) = escape s ++ escape t := by
  simp [escape, List.flatMap_append]

/-- the character whose entity stands at the front of a text, and what follows it -/
def entityAt? (s : Text) : Option (Char × Text) :=
  entities.findSome? fun e => (after? e.2 s).map fun r => (e.1, r)

/-- each entity replaced by its character, from left to right -/
def unescape (s : Text) : Text :=
  match s with
  | [] => []
  | c :: r =>
    match _h : entityAt? (c :: r) with
    | some (d, rest) => d :: unescape rest
    | none => c :: unescape r
termination_by s.length
decreasing_by
  · obtain ⟨e, he, hr⟩ := List.exists_of_findSome?_eq_some ‹_›
    obtain ⟨q, hq, e'⟩ := Option.map_eq_some_iff.1 hr
    obtain ⟨-, rfl⟩ := Prod.mk.inj e'
    have hl := congrArg List.length (after?_eq_some hq)
    have hpos : 0 < e.2.length := by
      have : ∀ e ∈ entities, 0 < e.2.length := by decide
      exact this e he
    simp only [List.length_append] at hl
    omega
  · simp

theorem unescape_nil : unescape [] = [] := by rw [unescape]

theorem unescape_of_entityAt? {s rest : Text} {c : Char} (h : entityAt? s = some (c, rest)) :
    unescape s = c :: unescape rest := by
  cases s with
  | nil => cases h
  | cons d r =>
    rw [unescape]
    split
    · next d' rest' h' =>
      rw [h] at h'
      cases h'
      rfl
    · next h' =>
      rw [h] at h'
      cases h'

theorem unescape_cons_of_none {c : Char} {s : Text} (h : entityAt? (c :: s) = none) :
    unescape (c :: s) = c :: unescape s := by
  rw [unescape]
  split
  · next h' =>
    rw [h] at h'
    cases h'
  · rfl

end Mustache.Text
