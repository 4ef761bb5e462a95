import Mathlib.Data.List.Basic
import Mustache.Render

/-!
# Indentation

The lines of an indented text are the lines of the text with the indentation in front of them: none
is passed over, and none begins behind a final line feed.  So indentation can be taken away again,
an indentation put in front of another one is one indentation, and a text that ends with its line
is indented apart from what follows.

* `Text.lines_indentLines`        the lines of an indented text
* `Text.dedentLines?`             an indentation taken away from every line
* `Rendering.indented_indented`   an indented step within an indented one
* `indentLines_laws`              the laws of indentation
-/

namespace Mustache

namespace Text

/-! ## lines -/

/-- a beginning without a line feed belongs to the first line -/
theorem lines_append_of_notMem {u s : Text} (hu : '\n' ∉ u) (hs : s ≠ []) :
    lines (u ++ s) = (u ++ (lines s).headD []) :: (lines s).tail := by
  induction u with
  | nil =>
    cases hl : lines s with
    | nil =>
      have hflat := flatten_lines s
      rw [hl] at hflat
      exact absurd hflat.symm hs
    | cons l ls => rw [List.nil_append, hl]; rfl
  | cons c u ih =>
    rw [List.mem_cons, not_or] at hu
    rw [List.cons_append, lines_cons_of_ne (Ne.symm hu.1), ih hu.2]
    rfl

variable {indent : Text}

theorem lines_indentLines (h : '\n' ∉ indent) (s : Text) :
    lines (indentLines s indent) = (lines s).map (indent ++ ·) := by
  induction s with
  | nil => rfl
  | cons c s ih =>
    by_cases hc : c = '\n'
    · have hfirst : indentLines ('\n' :: s) indent =
          indent ++ '\n' :: indentLines s indent := by
        rw [indentLines, lines_newline, List.flatMap_cons, List.append_assoc]
        rfl
      rw [hc, hfirst, lines_append_of_notMem h (List.cons_ne_nil _ _), lines_newline, ih,
        lines_newline]
      rfl
    · rw [indentLines, lines_cons_of_ne hc, List.flatMap_cons, List.append_assoc, List.cons_append,
        lines_append_of_notMem h (List.cons_ne_nil _ _), lines_cons_of_ne hc]
      cases hl : lines s with
      | nil => rfl
      | cons l ls =>
        -- what follows `c` on its line is a line of its own for the induction hypothesis
        have hne : l ++ ls.flatMap (indent ++ ·) ≠ [] := by
          intro hnil
          have hmem : l ∈ lines s := hl ▸ List.mem_cons_self
          rw [(List.append_eq_nil_iff.1 hnil).1] at hmem
          exact nil_notMem_lines s hmem
        rw [indentLines, hl, List.flatMap_cons, List.append_assoc, lines_append_of_notMem h hne,
          List.map_cons] at ih
        obtain ⟨hfirst, hothers⟩ := List.cons.inj ih
        show (indent ++ c :: (lines (l ++ ls.flatMap (indent ++ ·))).headD []) ::
          (lines (l ++ ls.flatMap (indent ++ ·))).tail = _
        rw [List.append_cancel_left hfirst, hothers]
        rfl

/-- an indentation taken away from every line; there is none if some line does not start with it -/
def dedentLines? (s indent : Text) : Option Text :=
  ((lines s).mapM (after? indent)).map List.flatten

theorem mapM_after? (indent : Text) (ls : List Text) :
    (ls.map (indent ++ ·)).mapM (after? indent) = some ls := by
  induction ls with
  | nil => rfl
  | cons l ls ih =>
    rw [List.map_cons, List.mapM_cons, after?_append, ih]
    rfl

theorem dedentLines?_indentLines (h : '\n' ∉ indent) (s : Text) :
    dedentLines? (indentLines s indent) indent = some s := by
  rw [dedentLines?, lines_indentLines h, mapM_after?, Option.map_some, flatten_lines]

theorem indentLines_indentLines (h : '\n' ∉ indent) (s outer : Text) :
    indentLines (indentLines s indent) outer = indentLines s (outer ++ indent) := by
  rw [indentLines, lines_indentLines h, List.flatMap_map, indentLines]
  refine List.flatMap_congr fun l _ => ?_
  rw [List.append_assoc]

theorem indentLines_append {s : Text} (h : WholeLines s) (t indent : Text) :
    indentLines (s ++ t) indent = indentLines s indent ++ indentLines t indent := by
  rw [indentLines, lines_append h, List.flatMap_append]
  rfl

theorem count_indentLines (h : '\n' ∉ indent) (s : Text) :
    (indentLines s indent).count '\n' = s.count '\n' := by
  have hlines : ∀ ls : List Text, (ls.flatMap (indent ++ ·)).count '\n' =
      ls.flatten.count '\n' := by
    intro ls
    induction ls with
    | nil => rfl
    | cons l ls ih =>
      rw [List.flatMap_cons, List.flatten_cons, List.count_append, List.count_append,
        List.count_append, List.count_eq_zero.2 h, Nat.zero_add, ih]
  rw [indentLines, hlines, flatten_lines]

end Text

/-! ## indented steps -/

/-- what is indented twice is indented once, by the outer indentation and then the inner one -/
theorem Rendering.indented_indented {indent : Text} (h : '\n' ∉ indent) (outer : Text)
    (body : Rendering) :
    indented outer (indented indent body) = indented (outer ++ indent) body := by
  funext c
  rcases hbody : body { c with pieces := [] } with ⟨c', _ | name⟩
  · have hinner := indented_of_ok (c := { c with pieces := [] }) hbody indent
    have htext : (⟨c'.frames, [Text.indentLines c'.text indent]⟩ : Canvas).text =
        Text.indentLines c'.text indent := by simp [Canvas.text]
    rw [indented_of_ok hinner, indented_of_ok hbody, htext, Text.indentLines_indentLines h]
  · have hinner := indented_of_fail (c := { c with pieces := [] }) hbody indent
    rw [indented_of_fail hinner, indented_of_fail hbody]

/-- **The laws of indentation.**  For an indentation on one line: put in front of another one it
makes one; a text that ends with its line is indented apart from what follows it; taken away from
every line it gives the text back, which had as many lines and line feeds.  So a step that is
indented within an indented one is indented once. -/
theorem indentLines_laws {indent : Text} (h : '\n' ∉ indent) (s : Text) :
    (∀ outer, Text.indentLines (Text.indentLines s indent) outer =
      Text.indentLines s (outer ++ indent)) ∧
    (s = [] ∨ s.getLast? = some '\n' → ∀ t, Text.indentLines (s ++ t) indent =
      Text.indentLines s indent ++ Text.indentLines t indent) ∧
    Text.dedentLines? (Text.indentLines s indent) indent = some s ∧
    (Text.lines (Text.indentLines s indent)).length = (Text.lines s).length ∧
    (Text.indentLines s indent).count '\n' = s.count '\n' ∧
    ∀ outer body, Rendering.indented outer (Rendering.indented indent body) =
      Rendering.indented (outer ++ indent) body := by
  refine ⟨Text.indentLines_indentLines h s, fun hs t => ?_, Text.dedentLines?_indentLines h s, ?_,
    Text.count_indentLines h s, Rendering.indented_indented h⟩
  · exact Text.indentLines_append (Text.wholeLines_iff_getLast?.2 hs) t indent
  · rw [Text.lines_indentLines h, List.length_map]

-- the empty line is indented, and the end of the last line begins no other one
theorem indentLines_laws_emptyLine :
    Text.indentLines (Text.indentLines "a\n\nb\n".toList "  ".toList) "> ".toList =
      ">   a\n>   \n>   b\n".toList ∧
    Text.indentLines ("a\n\nb\n".toList ++ "c".toList) "  ".toList =
      "  a\n  \n  b\n".toList ++ "  c".toList ∧
    Text.dedentLines? "  a\n  \n  b\n".toList "  ".toList = some "a\n\nb\n".toList := by
  obtain ⟨hnested, happend, hdedent, -⟩ :=
    indentLines_laws (show '\n' ∉ "  ".toList by decide) "a\n\nb\n".toList
  exact ⟨(hnested "> ".toList).trans rfl, happend (.inr rfl) "c".toList, hdedent⟩

end Mustache
