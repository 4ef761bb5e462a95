import Mathlib.Data.List.Basic
import Mustache.Proofs.Reparse

/-!
# Text behind complete lines

A text without an open line at its end is scanned, and more text is put behind it.  Then nothing of
the first text is read in another way, and the second one is cut into segments and lines as if it
stood alone, under the delimiters that the first one leaves in force and further to the right.

* `Delims.behind`         the delimiters in force behind a segment; `Delims.atEnd?` behind a text
* `Segment.scan_append`   the segments of two texts, one behind the other
* `Segment.scan_add`      a text scanned further to the right
* `Token.ofText_append`   the tokens of two texts, one behind the other
-/

namespace Mustache

/-! ## delimiters -/

namespace Delims

/-- the delimiters in force behind a segment -/
def behind (d : Delims) : Segment → Delims
  | .literal _ => d
  | .tag _ t =>
    match d.after t.kind t.content with
    | .ok next => next
    | .error _ => d

/-- the delimiters in force at the end of a text, if it can be scanned -/
def atEnd? (source : Text) : Option Delims :=
  match Segment.scan .braces 0 source with
  | .ok segs => some (segs.foldl behind .braces)
  | .error _ => none

theorem foldl_behind_literals (d : Delims) (s : Text) :
    (Segment.literals s).foldl behind d = d := by
  rw [Segment.literals]
  induction Text.lines s with
  | nil => rfl
  | cons l ls ih => exact ih

theorem newline_notMem_opening (d : Delims) : '\n' ∉ d.opening :=
  blank_notMem_of_isDelim d.opening_isDelim (by decide)

theorem newline_notMem_closing (d : Delims) : '\n' ∉ d.closing :=
  blank_notMem_of_isDelim d.closing_isDelim (by decide)

/-- a line is still open behind a tag -/
theorem not_wholeLines_append_closing (d : Delims) (s : Text) :
    ¬ Text.WholeLines (s ++ d.closing) := by
  intro h
  have hne := d.closing_isDelim.1
  have hlast : d.closing.getLast hne = '\n' :=
    Text.wholeLines_iff.1 h.of_append _ (List.getLast?_eq_some_getLast hne)
  exact d.newline_notMem_closing (hlast ▸ List.getLast_mem hne)

end Delims

/-! ## segments -/

namespace Segment

/-- **Scanning goes on.**  What stands behind complete lines is scanned under the delimiters that
are in force there. -/
theorem scan_append {d : Delims} {offset : Nat} {a : Text} {segs : List Segment}
    (h : scan d offset a = .ok segs) (ha : Text.WholeLines a) (b : Text) :
    scan d offset (a ++ b) =
      (scan (segs.foldl Delims.behind d) (offset + a.length) b).map (segs ++ ·) := by
  fun_induction scan d offset a generalizing segs with
  | case1 d offset a hc =>
    -- no tag begins in `a` or across its end, so the next one is the first of `b`
    cases h
    have hlast : ∀ c ∈ a.getLast?, c ∉ d.opening := by
      intro c hc
      rw [Text.wholeLines_iff.1 ha c hc]
      exact d.newline_notMem_opening
    have hcut := Text.cut?_append_of_eq_none hc hlast b
    rw [Delims.foldl_behind_literals]
    cases hb : Text.cut? d.opening b with
    | none =>
      rw [hb] at hcut
      rw [scan_literals hcut, scan_literals hb, literals_append ha]
      rfl
    | some q =>
      obtain ⟨before, after⟩ := q
      rw [hb] at hcut
      cases hread : readTag d after with
      | error cause =>
        rw [scan_of_readTag_error hcut hread, scan_of_readTag_error hb hread, List.length_append,
          ← Nat.add_assoc]
        rfl
      | ok r =>
        rw [scan_of_readTag hcut hread, scan_of_readTag hb hread, List.length_append,
          ← Nat.add_assoc, literals_append ha]
        cases scan r.next (offset + a.length + before.length + (d.opening ++ r.raw).length)
          r.rest with
        | error f => rfl
        | ok segs => exact congrArg Except.ok (List.append_assoc ..)
  | case2 => cases h
  | case3 => cases h
  | case4 d offset a before after hc start r hr raw rest hrest =>
    rename_i ih
    cases h
    have htext : a = before ++ raw ++ r.rest := eq_append_of_readTag hc hr
    have hlength : offset + a.length = start + raw.length + r.rest.length := by
      rw [htext, List.length_append, List.length_append]
      omega
    rw [htext] at ha
    have hnext : (literals before ++ tag raw ⟨r.kind, r.content, start⟩ :: rest).foldl
        Delims.behind d = rest.foldl Delims.behind r.next := by
      obtain ⟨-, -, hafter, -⟩ := readTag_eq_ok hr
      rw [List.foldl_append, Delims.foldl_behind_literals, List.foldl_cons, Delims.behind]
      simp only [hafter]
    rw [scan_of_readTag (Text.cut?_append hc b) (readTag_append hr b), hnext, hlength,
      ih hrest ha.of_append]
    cases scan (rest.foldl Delims.behind r.next) (start + raw.length + r.rest.length) b with
    | error f => rfl
    | ok segs =>
      exact congrArg Except.ok (List.append_assoc (literals before) (_ :: rest) segs).symm

/-- complete lines end with literal text that ends a line -/
theorem endsLine_of_scan {d : Delims} {offset : Nat} {a : Text} {segs : List Segment}
    (h : scan d offset a = .ok segs) (ha : Text.WholeLines a) :
    ∀ s ∈ segs.getLast?, s.endsLine = true := by
  fun_induction scan d offset a generalizing segs with
  | case1 d offset a hc =>
    cases h
    intro s hs
    obtain ⟨init, hinit⟩ := List.getLast?_eq_some_iff.1 hs
    obtain ⟨l, hl, rfl⟩ := List.mem_map.1 (List.mem_of_getLast? hs)
    have htext := flatMap_text_literals a
    rw [hinit, List.flatMap_append, List.flatMap_singleton] at htext
    rw [← htext] at ha
    rcases ha.of_append with hnil | hend
    · exact absurd (hnil ▸ hl) (Text.nil_notMem_lines a)
    · exact hend
  | case2 => cases h
  | case3 => cases h
  | case4 d offset a before after hc start r hr raw rest hrest =>
    rename_i ih
    cases h
    have htext : a = before ++ raw ++ r.rest := eq_append_of_readTag hc hr
    rw [htext] at ha
    intro s hs
    cases rest with
    | nil =>
      -- the text would end with the tag
      have hnil : r.rest = [] := (flatMap_text_scan hrest).symm
      obtain ⟨u, hu⟩ := exists_raw_eq hr
      rw [hnil, List.append_nil] at ha
      refine absurd ?_ (d.not_wholeLines_append_closing (before ++ (d.opening ++ u)))
      rw [List.append_assoc, List.append_assoc, ← hu]
      exact ha
    | cons s' rest =>
      have hlast : (literals before ++ tag raw ⟨r.kind, r.content, start⟩ :: s' :: rest).getLast? =
          (s' :: rest).getLast? := by
        rw [List.getLast?_append, List.getLast?_cons_cons, List.getLast?_cons]
        rfl
      rw [hlast] at hs
      exact ih hrest ha.of_append s hs

theorem splitLines_append_of_endsLine {a : List Segment}
    (ha : ∀ s ∈ a.getLast?, s.endsLine = true) (b : List Segment) :
    splitLines (a ++ b) = splitLines a ++ splitLines b := by
  induction a with
  | nil => rfl
  | cons s a ih =>
    have htail : ∀ s' ∈ a.getLast?, s'.endsLine = true :=
      fun s' hs' => ha s' (List.mem_getLast?_cons hs')
    rw [List.cons_append, splitLines, splitLines, ih htail]
    by_cases hend : s.endsLine = true
    · rw [if_pos hend, if_pos hend, List.cons_append]
    · rw [if_neg hend, if_neg hend]
      cases hl : splitLines a with
      | nil =>
        -- then the open line of `s` is the last one
        have hnil := flatten_splitLines a
        rw [hl] at hnil
        subst hnil
        exact absurd (ha s rfl) hend
      | cons l ls => rfl

/-! ## further to the right -/

theorem scan_add (d : Delims) (offset k : Nat) (s : Text) :
    scan d (offset + k) s = moved (· + k) (List.map (move id (· + k))) (scan d offset s) := by
  fun_induction scan d offset s with
  | case1 d offset s hc =>
    rw [scan_literals hc]
    exact congrArg Except.ok (map_move_id_literals _ s).symm
  | case2 d offset s before after hc start cause hr =>
    rw [scan_of_readTag_error hc hr, Nat.add_right_comm]
    rfl
  | case3 d offset s before after hc start r hr raw f hf ih =>
    have hstart : offset + k + before.length = start + k := Nat.add_right_comm ..
    have hrest : start + k + (d.opening ++ r.raw).length = start + raw.length + k :=
      Nat.add_right_comm ..
    rw [scan_of_readTag hc hr, hstart, hrest, ih, hf]
    rfl
  | case4 d offset s before after hc start r hr raw rest hrest ih =>
    have hstart : offset + k + before.length = start + k := Nat.add_right_comm ..
    have hnext : start + k + (d.opening ++ r.raw).length = start + raw.length + k :=
      Nat.add_right_comm ..
    have hsegs : (literals before ++ tag raw ⟨r.kind, r.content, start⟩ :: rest).map
        (move id (· + k)) = literals before ++
          tag raw ⟨r.kind, r.content, start + k⟩ :: rest.map (move id (· + k)) := by
      rw [List.map_append, map_move_id_literals, List.map_cons, move_id_tag]
    rw [scan_of_readTag hc hr, hstart, hnext, ih, hrest]
    exact congrArg Except.ok hsegs.symm

end Segment

/-! ## tokens -/

namespace Token

/-- the tokens of two texts, one behind the other -/
theorem ofText_append {a : Text} {ts : List Token} (h : ofText a = .ok ts)
    (ha : Text.WholeLines a) (hdelims : Delims.atEnd? a = some .braces) (b : Text) :
    ofText (a ++ b) =
      (moved (· + a.length) (List.map (move id (· + a.length))) (ofText b)).map (ts ++ ·) := by
  obtain ⟨segs, hscan, rfl⟩ := exists_scan_of_ofText h
  rw [Delims.atEnd?, hscan] at hdelims
  rw [ofText, ofText, Segment.scan_append hscan ha, Option.some.inj hdelims,
    Segment.scan_add]
  cases Segment.scan .braces 0 b with
  | error f => rfl
  | ok segs' =>
    show Except.ok (ofSegments (segs ++ segs'.map (Segment.move id (· + a.length)))) =
      Except.ok (ofSegments segs ++ (ofSegments segs').map (move id (· + a.length)))
    rw [← ofSegments_move .id fun _ _ _ _ _ => rfl, ofSegments_eq_flatMap, ofSegments_eq_flatMap,
      ofSegments_eq_flatMap, ← List.flatMap_append,
      Segment.splitLines_append_of_endsLine (Segment.endsLine_of_scan hscan ha)]

end Token
end Mustache
