import Mustache.Tag
import Mustache.Text.Lines

/-!
# Segments

The text of a template is cut into segments: pieces of literal text, one line each at most, and
tags.  `scan` does it from left to right under the delimiters in force; the segments make up the
text again (`flatMap_text_scan`).
-/

namespace Mustache

inductive Segment where
  | literal (t : Text)
  /-- a tag, with all of its text from the opening delimiter to the terminator -/
  | tag (raw : Text) (t : Tag)
  deriving DecidableEq, Repr

namespace Segment

/-- the extent of a segment in the source -/
def text : Segment → Text
  | literal t => t
  | tag raw _ => raw

def tag? : Segment → Option Tag
  | literal _ => none
  | tag _ t => some t

def isLiteral : Segment → Bool
  | literal _ => true
  | tag _ _ => false

/-- only literal text ends a line, a line feed inside a tag does not -/
def endsLine : Segment → Bool
  | literal t => Text.endsLine t
  | tag _ _ => false

/-- literal text, cut into its lines -/
def literals (s : Text) : List Segment := (Text.lines s).map literal

theorem flatMap_text_literals (s : Text) : (literals s).flatMap text = s := by
  simp [literals, List.flatMap_map, text, Text.flatten_lines]

theorem literals_append {s : Text} (hs : Text.WholeLines s) (t : Text) :
    literals (s ++ t) = literals s ++ literals t := by
  rw [literals, Text.lines_append hs, List.map_append]
  rfl

/-- the segments of a text that starts at `offset`, while `d` is in force -/
def scan (d : Delims) (offset : Nat) (s : Text) : Except Fault (List Segment) :=
  match _h : Text.cut? d.opening s with
  | none => .ok (literals s)
  | some (before, after) =>
    let start := offset + before.length
    match _hr : readTag d after with
    | .error cause => .error ⟨cause, start⟩
    | .ok r =>
      let raw := d.opening ++ r.raw
      match scan r.next (start + raw.length) r.rest with
      | .error f => .error f
      | .ok segs => .ok (literals before ++ tag raw ⟨r.kind, r.content, start⟩ :: segs)
termination_by s.length
decreasing_by
  have h₁ := Text.length_of_cut? _h
  have h₂ := congrArg List.length (raw_append_rest _hr)
  have h₃ := d.length_opening_pos
  simp only [List.length_append] at h₂
  omega

theorem scan_literals {d : Delims} {offset : Nat} {s : Text}
    (hcut : Text.cut? d.opening s = none) : scan d offset s = .ok (literals s) := by
  rw [scan]
  split
  · rfl
  · next hsome => rw [hcut] at hsome; cases hsome

/-- the parts of a text with a tag that could be read -/
theorem eq_append_of_readTag {d : Delims} {s before after : Text} {r : TagReading}
    (hcut : Text.cut? d.opening s = some (before, after)) (hread : readTag d after = .ok r) :
    s = before ++ (d.opening ++ r.raw) ++ r.rest := by
  rw [Text.cut?_eq_some hcut, raw_append_rest hread]
  simp only [List.append_assoc]

theorem scan_of_readTag_error {d : Delims} {offset : Nat} {s before after : Text} {cause : Cause}
    (hcut : Text.cut? d.opening s = some (before, after))
    (hread : readTag d after = .error cause) :
    scan d offset s = .error ⟨cause, offset + before.length⟩ := by
  rw [scan]
  split
  · next hnone => rw [hcut] at hnone; cases hnone
  · next b a hsome =>
    rw [hcut] at hsome
    cases hsome
    split
    · next cause' herr =>
      rw [hread] at herr
      cases herr
      rfl
    · next r hr => rw [hread] at hr; cases hr

/-- behind a tag that could be read, scanning goes on -/
theorem scan_of_readTag {d : Delims} {offset : Nat} {s before after : Text} {r : TagReading}
    (hcut : Text.cut? d.opening s = some (before, after)) (hread : readTag d after = .ok r) :
    scan d offset s =
      (scan r.next (offset + before.length + (d.opening ++ r.raw).length) r.rest).map fun segs =>
        literals before ++
          tag (d.opening ++ r.raw) ⟨r.kind, r.content, offset + before.length⟩ :: segs := by
  rw [scan]
  split
  · next hnone => rw [hcut] at hnone; cases hnone
  · next b a hsome =>
    rw [hcut] at hsome
    cases hsome
    split
    · next cause herr => rw [hread] at herr; cases herr
    · next r' hr' =>
      rw [hread] at hr'
      cases hr'
      simp only
      split
      · next f hf => rw [hf]; rfl
      · next segs hsegs => rw [hsegs]; rfl

theorem scan_tag {d : Delims} {offset : Nat} {s before after : Text} {r : TagReading}
    {segs : List Segment} (hcut : Text.cut? d.opening s = some (before, after))
    (hread : readTag d after = .ok r)
    (hscan : scan r.next (offset + before.length + (d.opening ++ r.raw).length) r.rest = .ok segs) :
    scan d offset s = .ok (literals before ++
      tag (d.opening ++ r.raw) ⟨r.kind, r.content, offset + before.length⟩ :: segs) := by
  rw [scan_of_readTag hcut hread, hscan]
  rfl

/-- scanning loses nothing and repeats nothing -/
theorem flatMap_text_scan {d : Delims} {offset : Nat} {s : Text} {segs : List Segment}
    (h : scan d offset s = .ok segs) : segs.flatMap text = s := by
  fun_induction scan d offset s generalizing segs with
  | case1 d offset s hc =>
    cases h
    exact flatMap_text_literals s
  | case2 => cases h
  | case3 => cases h
  | case4 d offset s before after hc start r hr raw rest hrest =>
    rename_i ih
    cases h
    rw [eq_append_of_readTag hc hr, List.flatMap_append, flatMap_text_literals, List.flatMap_cons,
      ih hrest, List.append_assoc]
    rfl

end Segment
end Mustache
