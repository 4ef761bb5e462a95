import Mustache.Text.Blank

/-!
# Lines

A line ends *after* its line feed, so no character is lost when a text is cut into lines; only
the last line may lack a line feed, and the empty text has no line at all.

* `lines s`              the lines of `s`
* `endsLine s`           `s` ends with a line feed
* `WholeLines s`         `s` is empty or ends with a line feed
* `indentLines s indent` every line of `s` with `indent` in front
-/

namespace Mustache.Text

def lines : Text → List Text
  | [] => []
  | c :: s =>
    if c = '\n' then [c] :: lines s
    else
      match lines s with
      | [] => [[c]]
      | l :: ls => (c :: l) :: ls

theorem lines_newline (s : Text) : lines ('\n' :: s) = ['\n'] :: lines s := by simp [lines]

theorem lines_cons_of_ne {c : Char} (h : c ≠ '\n') (s : Text) :
    lines (c :: s) = (c :: (lines s).headD []) :: (lines s).tail := by
  rw [lines, if_neg h]
  cases lines s <;> rfl

theorem flatten_lines (s : Text) : (lines s).flatten = s := by
  induction s with
  | nil => rfl
  | cons c s ih =>
    by_cases h : c = '\n'
    · simp [lines, h, ih]
    · simp only [lines, if_neg h]
      split
      · next e => simpa [e] using ih
      · next l ls e => simpa [e] using ih

theorem nil_notMem_lines (s : Text) : [] ∉ lines s := by
  induction s with
  | nil => exact List.not_mem_nil
  | cons c s ih =>
    rw [lines]
    split
    · simpa using ih
    · split
      · simp
      · next l ls hl =>
        rw [hl, List.mem_cons, not_or] at ih
        simpa using ih.2

/-- only the last character of a line may be a line feed -/
theorem newline_notMem_dropLast {s l : Text} (h : l ∈ lines s) : '\n' ∉ l.dropLast := by
  induction s generalizing l with
  | nil => cases h
  | cons c s ih =>
    rw [lines] at h
    split at h
    · rcases List.mem_cons.1 h with rfl | h
      · exact List.not_mem_nil
      · exact ih h
    · next hc =>
      split at h
      · obtain rfl := List.mem_singleton.1 h
        exact List.not_mem_nil
      · next l' ls hl =>
        have hmem : ∀ m ∈ l' :: ls, '\n' ∉ m.dropLast := fun m hm => ih (hl ▸ hm)
        rcases List.mem_cons.1 h with rfl | h
        · cases l' with
          | nil => exact List.not_mem_nil
          | cons d l' => simpa [eq_comm, hc] using hmem (d :: l') List.mem_cons_self
        · exact hmem l (List.mem_cons_of_mem _ h)

theorem lines_append_newline {s : Text} (h : '\n' ∉ s) : lines (s ++ ['\n']) = [s ++ ['\n']] := by
  induction s with
  | nil => rfl
  | cons c s ih =>
    rw [List.mem_cons, not_or] at h
    rw [List.cons_append, lines_cons_of_ne (Ne.symm h.1), ih h.2]
    rfl

def endsLine (s : Text) : Bool := s.getLast? == some '\n'

/-- the text has no open line at its end, so what is put behind it begins a line -/
def WholeLines (s : Text) : Prop := s = [] ∨ endsLine s = true

theorem wholeLines_iff {s : Text} : WholeLines s ↔ ∀ c ∈ s.getLast?, c = '\n' := by
  rcases List.eq_nil_or_concat s with rfl | ⟨u, c, rfl⟩
  · simp [WholeLines]
  · simp [WholeLines, endsLine]

theorem wholeLines_iff_getLast? {s : Text} : WholeLines s ↔ s = [] ∨ s.getLast? = some '\n' := by
  rw [WholeLines, endsLine, beq_iff_eq]

theorem WholeLines.of_append {s t : Text} (h : WholeLines (s ++ t)) : WholeLines t := by
  rw [wholeLines_iff] at h ⊢
  intro c hc
  apply h
  rw [List.getLast?_append, Option.mem_def.1 hc]
  rfl

theorem WholeLines.tail {c : Char} {s : Text} (h : WholeLines (c :: s)) : WholeLines s :=
  of_append (show WholeLines ([c] ++ s) from h)

theorem WholeLines.takeWhile_reverse {s : Text} (h : WholeLines s) :
    s.reverse.takeWhile (· ≠ '\n') = [] := by
  rcases List.eq_nil_or_concat s with rfl | ⟨u, c, rfl⟩
  · rfl
  · have hc : c = '\n' := wholeLines_iff.1 h c (by simp)
    simp [hc]

theorem lines_append {s : Text} (hs : WholeLines s) (t : Text) :
    lines (s ++ t) = lines s ++ lines t := by
  induction s with
  | nil => rfl
  | cons c s ih =>
    by_cases hc : c = '\n'
    · rw [hc, List.cons_append, lines_newline, lines_newline, ih hs.tail, List.cons_append]
    · have hrest : lines s ≠ [] := by
        intro hnil
        have hflat := flatten_lines s
        rw [hnil] at hflat
        subst hflat
        exact hc (wholeLines_iff.1 hs c rfl)
      rw [List.cons_append, lines_cons_of_ne hc, lines_cons_of_ne hc, ih hs.tail]
      cases hl : lines s with
      | nil => exact absurd hl hrest
      | cons l ls => rfl

/-- a text with `indent` in front of every line; a final line feed starts no new line -/
def indentLines (s indent : Text) : Text := (lines s).flatMap (indent ++ ·)

end Mustache.Text
