import Mustache.Text.Ranges

/-!
# Texts and blanks

A text is a list of characters.  A *blank* is a character with the Unicode property White_Space:
ten ranges, twenty-five characters.

* `isBlank`      the property
* `trim s`       `s` without the blanks at its two ends
* `words s`      the maximal runs of other characters in `s`

A text is cut at a character by `List.splitOn`; `notMem_of_mem_splitOn` says what its pieces are.
-/

namespace Mustache

abbrev Text := List Char

namespace Text

/-- the code points with the property White_Space -/
def blankRanges : Ranges :=
  [(0x09, 0x0D), (0x20, 0x20), (0x85, 0x85), (0xA0, 0xA0), (0x1680, 0x1680), (0x2000, 0x200A),
   (0x2028, 0x2029), (0x202F, 0x202F), (0x205F, 0x205F), (0x3000, 0x3000)]

def isBlank (c : Char) : Bool := blankRanges.has c

example : blankRanges.apart = true ∧ blankRanges.size = 25 := by decide

/-- a text, if there is any -/
def nonempty? (s : Text) : Option Text := if s = [] then none else some s

/-! ## the two ends -/

def trimStart (s : Text) : Text := s.dropWhile isBlank

def trimEnd (s : Text) : Text := (trimStart s.reverse).reverse

/-- a text without its leading and trailing blanks -/
def trim (s : Text) : Text := trimEnd (trimStart s)

theorem trimStart_append {a : Text} (ha : a ≠ []) (hb : ∀ x ∈ a, isBlank x = false) (s : Text) :
    trimStart (a ++ s) = a ++ s := by
  cases a with
  | nil => exact absurd rfl ha
  | cons x a =>
    exact List.dropWhile_cons_of_neg (by rw [hb x List.mem_cons_self]; exact Bool.false_ne_true)

theorem trim_pair {o c : Text} (ho : o ≠ []) (hc : c ≠ []) (hob : ∀ x ∈ o, isBlank x = false)
    (hcb : ∀ x ∈ c, isBlank x = false) : trim (o ++ ' ' :: c) = o ++ ' ' :: c := by
  have hcr : ∀ x ∈ c.reverse, isBlank x = false := fun x hx => hcb x (List.mem_reverse.1 hx)
  have hne : c.reverse ≠ [] := fun h => hc (List.reverse_eq_nil_iff.1 h)
  rw [trim, trimStart_append ho hob, trimEnd, List.reverse_append, List.reverse_cons,
    List.append_assoc, trimStart_append hne hcr]
  simp

/-! ## pieces -/

/-- no piece has the character at which the text is cut -/
theorem notMem_of_mem_splitOn {x : Char} {s piece : Text} (h : piece ∈ s.splitOn x) :
    x ∉ piece := by
  induction s generalizing piece with
  | nil =>
    rw [List.splitOn_nil, List.mem_singleton] at h
    rw [h]
    exact List.not_mem_nil
  | cons c s ih =>
    rw [List.splitOn_cons_eq_if_modifyHead] at h
    split at h
    · rcases List.mem_cons.1 h with rfl | h
      · exact List.not_mem_nil
      · exact ih h
    · next hc =>
      obtain ⟨q, qs, hq⟩ := List.exists_cons_of_ne_nil (List.splitOn_ne_nil x s)
      rw [hq] at h
      rcases List.mem_cons.1 h with rfl | h
      · have hq' : x ∉ q := ih (by rw [hq]; exact List.mem_cons_self)
        refine fun hm => (List.mem_cons.1 hm).elim (fun e => hc ?_) hq'
        rw [← e]
        exact BEq.rfl
      · exact ih (by rw [hq]; exact List.mem_cons_of_mem _ h)

/-! ## words -/

/-- the maximal runs of characters that are not blank -/
def words (s : Text) : List Text := (s.splitOnP isBlank).filter (· ≠ [])

theorem words_pair {o c : Text} (ho : o ≠ []) (hc : c ≠ []) (hob : ∀ x ∈ o, isBlank x = false)
    (hcb : ∀ x ∈ c, isBlank x = false) : words (o ++ ' ' :: c) = [o, c] := by
  have hspace : isBlank ' ' = true := by decide
  rw [words, List.splitOnP_append_cons_of_forall_mem hob ' ' hspace, List.splitOnP_eq_singleton hcb]
  simp [ho, hc]

end Text
end Mustache
