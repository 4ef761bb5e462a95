import Mustache.Node

/-!
# Partials

A partial is a template loaded for inclusion: its name, its text, and the nodes of the text.  A
table keeps partials in the order in which they were loaded.
-/

namespace Mustache

structure Partial where
  name : Text
  source : Text
  tree : Tree
  deriving Repr

structure PartialTable where
  partials : List Partial
  deriving Repr

namespace PartialTable

def empty : PartialTable := ⟨[]⟩

def add (p : Partial) (t : PartialTable) : PartialTable := ⟨t.partials ++ [p]⟩

def names (t : PartialTable) : List Text := t.partials.map Partial.name

def size (t : PartialTable) : Nat := t.partials.length

def isEmpty (t : PartialTable) : Bool := t.partials.isEmpty

def find? (t : PartialTable) (name : Text) : Option Partial :=
  t.partials.find? (·.name = name)

def source? (t : PartialTable) (name : Text) : Option Text := (t.find? name).map Partial.source

def tree? (t : PartialTable) (name : Text) : Option Tree := (t.find? name).map Partial.tree

theorem names_empty : empty.names = [] := rfl

theorem names_add (p : Partial) (t : PartialTable) : (t.add p).names = t.names ++ [p.name] := by
  simp [add, names]

theorem length_names (t : PartialTable) : t.names.length = t.size := by simp [names, size]

theorem size_add (p : Partial) (t : PartialTable) : (t.add p).size = t.size + 1 := by
  simp [add, size]

theorem find?_add (p : Partial) (t : PartialTable) (name : Text) :
    (t.add p).find? name = (t.find? name).or (if p.name = name then some p else none) := by
  rw [find?, add, List.find?_append]
  by_cases h : p.name = name <;> simp [find?, h]

theorem find?_eq_none_iff {t : PartialTable} {name : Text} :
    t.find? name = none ↔ name ∉ t.names := by
  simp [find?, names]

/-- with no name twice, every partial is found under its name -/
theorem find?_of_mem {t : PartialTable} {p : Partial} (hn : t.names.Nodup)
    (hp : p ∈ t.partials) : t.find? p.name = some p := by
  obtain ⟨a, b, e⟩ := List.append_of_mem hp
  rw [names, e, List.map_append, List.map_cons] at hn
  have ha : p.name ∉ a.map Partial.name := fun h =>
    (List.nodup_append.1 hn).2.2 _ h _ List.mem_cons_self rfl
  refine List.find?_eq_some_iff_append.2 ⟨by simp, a, b, e, fun q hq => ?_⟩
  have hne : q.name ≠ p.name := fun h => ha (h ▸ List.mem_map_of_mem hq)
  simpa using hne

theorem source?_of_mem {t : PartialTable} {p : Partial} (hn : t.names.Nodup)
    (hp : p ∈ t.partials) : t.source? p.name = some p.source := by
  rw [source?, find?_of_mem hn hp]
  rfl

theorem tree?_of_mem {t : PartialTable} {p : Partial} (hn : t.names.Nodup)
    (hp : p ∈ t.partials) : t.tree? p.name = some p.tree := by
  rw [tree?, find?_of_mem hn hp]
  rfl

theorem exists_of_tree?_eq_some {t : PartialTable} {name : Text} {u : Tree}
    (h : t.tree? name = some u) : ∃ p ∈ t.partials, p.name = name ∧ p.tree = u := by
  obtain ⟨p, hp, rfl⟩ := Option.map_eq_some_iff.1 h
  exact ⟨p, List.mem_of_find?_eq_some hp, by simpa using List.find?_some hp, rfl⟩

theorem tree?_add_of_eq_some {t : PartialTable} {name : Text} {u : Tree} (p : Partial)
    (h : t.tree? name = some u) : (t.add p).tree? name = some u := by
  obtain ⟨q, hq, rfl⟩ := Option.map_eq_some_iff.1 h
  rw [tree?, find?_add, hq]
  rfl

end PartialTable
end Mustache
