import Mustache.Text.Blank

/-!
# Searching a text

* `after? p s`       what follows `p` when `s` starts with it
* `cut? p s`         the parts of `s` before and after the first occurrence of `p`
* `OnlyAtEnd p s`    `p` put behind `s` occurs there for the first time
* `replace p by s`   every occurrence of `p`, from left to right, replaced
-/

namespace Mustache.Text

def after? : Text → Text → Option Text
  | [], s => some s
  | _ :: _, [] => none
  | c :: p, d :: s => if c = d then after? p s else none

theorem after?_eq_some {p s r : Text} (h : after? p s = some r) : s = p ++ r := by
  fun_induction after? p s with
  | case1 s => simpa using h
  | case2 => simp at h
  | case3 p c s ih => simp [ih h]
  | case4 => simp at h

theorem after?_append (p r : Text) : after? p (p ++ r) = some r := by
  induction p with
  | nil => rfl
  | cons c p ih => simp [after?, ih]

/-- the parts of a text before and after the first occurrence of `p` -/
def cut? (p : Text) : Text → Option (Text × Text)
  | [] => (after? p []).map fun r => ([], r)
  | c :: s =>
    match after? p (c :: s) with
    | some r => some ([], r)
    | none => (cut? p s).map fun q => (c :: q.1, q.2)

/-- nothing is lost but the occurrence itself -/
theorem cut?_eq_some {p s a b : Text} (h : cut? p s = some (a, b)) : s = a ++ p ++ b := by
  induction s generalizing a with
  | nil =>
    obtain ⟨r, hr, e⟩ := Option.map_eq_some_iff.1 h
    obtain ⟨rfl, rfl⟩ := Prod.mk.inj e
    simpa using after?_eq_some hr
  | cons c s ih =>
    rw [cut?] at h
    split at h
    · next r hr =>
      obtain ⟨rfl, rfl⟩ := Prod.mk.inj (Option.some.inj h)
      simpa using after?_eq_some hr
    · obtain ⟨q, hq, e⟩ := Option.map_eq_some_iff.1 h
      obtain ⟨rfl, rfl⟩ := Prod.mk.inj e
      simpa using ih hq

theorem length_of_cut? {p s a b : Text} (h : cut? p s = some (a, b)) :
    s.length = a.length + p.length + b.length := by
  simp [cut?_eq_some h, Nat.add_assoc]

/-- no occurrence starts earlier -/
theorem length_le_of_cut? {p s a b a' b' : Text} (h : cut? p s = some (a, b))
    (h' : s = a' ++ p ++ b') : a.length ≤ a'.length := by
  induction s generalizing a a' with
  | nil =>
    obtain ⟨r, -, e⟩ := Option.map_eq_some_iff.1 h
    obtain ⟨rfl, -⟩ := Prod.mk.inj e
    exact Nat.zero_le _
  | cons c s ih =>
    rw [cut?] at h
    split at h
    · next r hr =>
      obtain ⟨rfl, -⟩ := Prod.mk.inj (Option.some.inj h)
      exact Nat.zero_le _
    · next hnone =>
      obtain ⟨⟨q, r⟩, hq, e⟩ := Option.map_eq_some_iff.1 h
      obtain ⟨rfl, rfl⟩ := Prod.mk.inj e
      cases a' with
      | nil => simp [h', after?_append] at hnone
      | cons c' a' =>
        have hs := (List.cons.inj h').2
        exact Nat.succ_le_succ (ih hq hs)

/-! ## occurrences at the end -/

def OnlyAtEnd (p s : Text) : Prop := ∀ a b, s ++ p = a ++ p ++ b → b = []

theorem onlyAtEnd_nil (p : Text) : OnlyAtEnd p [] := by
  intro a b h
  have := congrArg List.length h
  simp only [List.nil_append, List.length_append] at this
  exact List.length_eq_zero_iff.1 (by omega)

theorem onlyAtEnd_of_notMem {c : Char} {p s : Text} (h : c ∉ s) : OnlyAtEnd (c :: p) s := by
  induction s with
  | nil => exact onlyAtEnd_nil _
  | cons d s ih =>
    rw [List.mem_cons, not_or] at h
    intro a b hab
    cases a with
    | nil => exact absurd (List.cons.inj hab).1.symm h.1
    | cons e a => exact ih h.2 a b (List.cons.inj hab).2

/-- a first character that does not start `p` changes nothing -/
theorem OnlyAtEnd.cons {c : Char} {p s : Text} (h : OnlyAtEnd p s) (hp : p ≠ [])
    (hc : p.head? ≠ some c) : OnlyAtEnd p (c :: s) := by
  intro a b hab
  cases a with
  | nil =>
    cases p with
    | nil => exact absurd rfl hp
    | cons d p => exact absurd (congrArg some (List.cons.inj hab).1.symm) hc
  | cons e a => exact h a b (List.cons.inj hab).2

theorem OnlyAtEnd.tail {c : Char} {p s : Text} (h : OnlyAtEnd p (c :: s)) : OnlyAtEnd p s := by
  intro a b hab
  exact h (c :: a) b (congrArg (c :: ·) hab)

theorem OnlyAtEnd.cut? {p s : Text} (h : OnlyAtEnd p s) (r : Text) :
    Text.cut? p (s ++ p ++ r) = some (s, r) := by
  induction s with
  | nil =>
    cases p with
    | nil => cases r <;> rfl
    | cons c p =>
      have := after?_append (c :: p) r
      rw [List.cons_append] at this
      rw [List.nil_append, List.cons_append, Text.cut?, this]
  | cons c s ih =>
    have hnone : after? p (c :: (s ++ p ++ r)) = none := by
      cases hr : after? p (c :: (s ++ p ++ r)) with
      | none => rfl
      | some q =>
        have hq : c :: s ++ p ++ r = p ++ q := after?_eq_some hr
        have hlen : p.length ≤ (c :: s ++ p).length := by
          rw [List.length_append]
          omega
        obtain ⟨b, hb⟩ := List.prefix_of_prefix_length_le ⟨q, hq.symm⟩ (List.prefix_append _ r) hlen
        have hnil := h [] b hb.symm
        have := congrArg List.length hb
        rw [hnil, List.append_nil, List.cons_append, List.length_cons, List.length_append] at this
        omega
    rw [List.cons_append, List.cons_append, Text.cut?, hnone, ih h.tail]
    rfl

theorem onlyAtEnd_iff {p s : Text} : OnlyAtEnd p s ↔ cut? p (s ++ p) = some (s, []) := by
  constructor
  · intro h
    have := h.cut? []
    rwa [List.append_nil] at this
  · intro h a b hab
    have hle := length_le_of_cut? h hab
    have hlen := congrArg List.length hab
    simp only [List.length_append] at hlen
    exact List.length_eq_zero_iff.1 (by omega)

instance (p s : Text) : Decidable (OnlyAtEnd p s) := decidable_of_iff _ onlyAtEnd_iff.symm

theorem OnlyAtEnd.cut?_eq_none {p s : Text} (h : OnlyAtEnd p s) (hp : p ≠ []) :
    Text.cut? p s = none := by
  cases hc : Text.cut? p s with
  | none => rfl
  | some q =>
    have hs := congrArg (· ++ p) (cut?_eq_some hc)
    have : q.2 ++ p = [] := h q.1 (q.2 ++ p) (by rw [← List.append_assoc]; exact hs)
    exact absurd (List.append_eq_nil_iff.1 this).2 hp

/-- what stands before the first occurrence -/
theorem onlyAtEnd_of_cut? {p s a b : Text} (h : cut? p s = some (a, b)) : OnlyAtEnd p a := by
  intro a' b' hab
  have hs : s = a' ++ p ++ (b' ++ b) := by rw [cut?_eq_some h, hab, List.append_assoc]
  have hle := length_le_of_cut? h hs
  have hlen := congrArg List.length hab
  simp only [List.length_append] at hlen
  exact List.length_eq_zero_iff.1 (by omega)

/-- the first occurrence stays the first one when more text follows -/
theorem cut?_append {p s a b : Text} (h : cut? p s = some (a, b)) (r : Text) :
    cut? p (s ++ r) = some (a, b ++ r) := by
  have hcut := (onlyAtEnd_of_cut? h).cut? (b ++ r)
  rwa [← List.append_assoc, ← cut?_eq_some h] at hcut

/-- no occurrence lies across the end of a text whose last character is none of `p` -/
theorem cut?_append_of_eq_none {p s : Text} (hs : cut? p s = none)
    (hlast : ∀ c ∈ s.getLast?, c ∉ p) (r : Text) :
    cut? p (s ++ r) = (cut? p r).map fun q => (s ++ q.1, q.2) := by
  induction s with
  | nil => cases hr : cut? p r <;> simp [hr]
  | cons c s ih =>
    rw [cut?] at hs
    split at hs
    · cases hs
    · next hstart =>
      have htail : ∀ d ∈ s.getLast?, d ∉ p := by
        intro d hd
        apply hlast
        rw [List.getLast?_cons, Option.mem_def.1 hd]
        rfl
      have hnone : after? p (c :: (s ++ r)) = none := by
        cases hq : after? p (c :: (s ++ r)) with
        | none => rfl
        | some q =>
          have hsplit : (c :: s) ++ r = p ++ q := after?_eq_some hq
          rcases List.append_eq_append_iff.1 hsplit with ⟨m, hp, -⟩ | ⟨m, hm, -⟩
          · have hmem := List.getLast_mem (List.cons_ne_nil c s)
            have hnot := hlast _ (List.getLast?_eq_some_getLast (List.cons_ne_nil c s))
            exact absurd (hp ▸ List.mem_append_left m hmem) hnot
          · rw [hm, after?_append] at hstart
            cases hstart
      rw [List.cons_append, cut?, hnone, ih (Option.map_eq_none_iff.1 hs) htail]
      cases cut? p r <;> rfl

/-! ## replacing -/

/-- every occurrence of `p`, from left to right, replaced by `r`; an empty `p` occurs nowhere -/
def replace (p r s : Text) : Text :=
  match _h : cut? p s with
  | none => s
  | some (a, b) => if p = [] then s else a ++ r ++ replace p r b
termination_by s.length
decreasing_by
  have := length_of_cut? ‹_›
  have := List.length_pos_iff.2 ‹¬p = []›
  omega

end Mustache.Text
