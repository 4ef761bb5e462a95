import Mustache.Parse
import Mustache.Proofs.Lines

/-!
# Where tags start

Scanning goes from tag to tag.  How far it has come is said here as a relation, which holds at
places of any text, also of one that cannot be scanned to its end.  So it tells where the tags of a
text start, and which delimiters are in force there.

* `Scanned`                   scanning has come to a place of the text
* `TagStarts`                 a tag starts at an offset; `TagStarts.Reads` says it could be read
* `Delims.inner?`             the text inside the tag behind an opening delimiter, if it is closed
* `Scanned.starts_of_error`   a fault of scanning lies where a tag starts
* `Token.reads_of_mem`        so does every tag among the tokens
* `TagStarts.exists_segment`  and a tag starts nowhere else
-/

namespace Mustache

/-- Scanning `source` has come to `s`, which begins at `offset`, and `d` is in force there: at the
start, or behind a tag that could be read. -/
inductive Scanned (source : Text) : Delims → Nat → Text → Prop where
  | start : Scanned source .braces 0 source
  | tag {d : Delims} {offset : Nat} {s before after : Text} {r : TagReading} :
      Scanned source d offset s → Text.cut? d.opening s = some (before, after) →
      readTag d after = .ok r →
      Scanned source r.next (offset + before.length + (d.opening ++ r.raw).length) r.rest

/-- A tag starts at an offset, where the next opening delimiter stands; `d` is in force there, and
`after` is the text behind the delimiter. -/
inductive TagStarts (source : Text) : Delims → Nat → Text → Prop where
  | intro {d : Delims} {offset : Nat} {s before after : Text} :
      Scanned source d offset s → Text.cut? d.opening s = some (before, after) →
      TagStarts source d (offset + before.length) after

/-- A tag starts at the offset of `t`; it could be read, and it is `t`. -/
def TagStarts.Reads (source : Text) (d : Delims) (after : Text) (t : Tag) : Prop :=
  TagStarts source d t.offset after ∧
    ∃ r, readTag d after = .ok r ∧ r.kind = t.kind ∧ r.content = t.content

/-- the kind of the tag behind an opening delimiter, closed or not -/
def TagKind.ofText (after : Text) : TagKind := ofSigil (Sigil.read after).1

/-- the text between the sigil and the first terminator behind it, and the text behind that -/
def Delims.inner? (d : Delims) (after : Text) : Option (Text × Text) :=
  Text.cut? (d.terminator (Sigil.read after).1) (Sigil.read after).2

/-- why a tag cannot be read: it is not closed, or its content is unfit for its kind -/
theorem readTag_eq_error {d : Delims} {s : Text} {cause : Cause}
    (h : readTag d s = .error cause) :
    (d.inner? s = none ∧ cause = .unclosedTag (d.terminator (Sigil.read s).1)) ∨
    ∃ inner rest, d.inner? s = some (inner, rest) ∧
      d.after (TagKind.ofText s) (Text.trim inner) = .error cause := by
  unfold readTag at h
  simp only at h
  split at h
  · next hnone =>
    cases h
    exact .inl ⟨hnone, rfl⟩
  · next inner rest hsome =>
    split at h
    · next cause' hafter =>
      cases h
      exact .inr ⟨inner, rest, hsome, hafter⟩
    · cases h

theorem Delims.after_eq_error {d : Delims} {kind : TagKind} {content : Text} {cause : Cause}
    (h : d.after kind content = .error cause) :
    (kind = .delims ∧ ofContent? content = none ∧ cause = .badDelims content) ∨
    (kind ≠ .delims ∧ kind ≠ .comment ∧ content = [] ∧ cause = .emptyName) := by
  have hname : ∀ kind : TagKind, kind ≠ .delims → kind ≠ .comment →
      (if content = [] then .error .emptyName else .ok d : Except Cause Delims) = .error cause →
      kind ≠ .delims ∧ kind ≠ .comment ∧ content = [] ∧ cause = .emptyName := by
    intro kind hdelims hcomment hif
    split at hif
    · next hempty =>
      cases hif
      exact ⟨hdelims, hcomment, hempty, rfl⟩
    · cases hif
  cases kind with
  | comment => cases h
  | delims =>
    refine .inl ⟨rfl, ?_⟩
    rw [after] at h
    split at h
    · cases h
    · next hnone =>
      cases h
      exact ⟨hnone, rfl⟩
  | var escaped => exact .inr (hname _ TagKind.noConfusion TagKind.noConfusion h)
  | block inverted => exact .inr (hname _ TagKind.noConfusion TagKind.noConfusion h)
  | close => exact .inr (hname _ TagKind.noConfusion TagKind.noConfusion h)
  | inclusion => exact .inr (hname _ TagKind.noConfusion TagKind.noConfusion h)

theorem Text.drop_add_length {source a b : Text} {offset : Nat}
    (h : source.drop offset = a ++ b) : source.drop (offset + a.length) = b := by
  rw [← List.drop_drop, h, List.drop_left]

namespace Scanned
variable {source : Text} {d : Delims} {offset : Nat} {s : Text}

theorem drop_eq (h : Scanned source d offset s) : source.drop offset = s := by
  induction h with
  | start => exact List.drop_zero
  | tag _ hcut hread ih =>
    rw [Segment.eq_append_of_readTag hcut hread, List.append_assoc] at ih
    exact Text.drop_add_length (Text.drop_add_length ih)

/-- a fault of scanning lies where a tag starts that cannot be read -/
theorem starts_of_error {f : Fault} (h : Scanned source d offset s)
    (hscan : Segment.scan d offset s = .error f) :
    ∃ d' after, TagStarts source d' f.offset after ∧ readTag d' after = .error f.cause := by
  fun_induction Segment.scan d offset s with
  | case1 => cases hscan
  | case2 d offset s before after hcut start cause hread =>
    cases hscan
    exact ⟨d, after, .intro h hcut, hread⟩
  | case3 d offset s before after hcut start r hread raw f' hrest ih =>
    cases hscan
    exact ih (h.tag hcut hread) hrest
  | case4 => cases hscan

/-- every tag among the segments starts where it says -/
theorem reads_of_mem {segs : List Segment} (h : Scanned source d offset s)
    (hscan : Segment.scan d offset s = .ok segs) {raw : Text} {t : Tag}
    (hmem : .tag raw t ∈ segs) : ∃ d' after, TagStarts.Reads source d' after t := by
  fun_induction Segment.scan d offset s generalizing segs with
  | case1 d offset s hcut =>
    cases hscan
    exact absurd hmem Segment.tag_notMem_literals
  | case2 => cases hscan
  | case3 => cases hscan
  | case4 d offset s before after hcut start r hread raw' rest hrest =>
    rename_i ih
    cases hscan
    rcases List.mem_append.1 hmem with hmem | hmem
    · exact absurd hmem Segment.tag_notMem_literals
    · rcases List.mem_cons.1 hmem with heq | hmem
      · obtain ⟨-, rfl⟩ := Segment.tag.inj heq
        exact ⟨d, after, .intro h hcut, r, hread, rfl, rfl⟩
      · exact ih (h.tag hcut hread) hrest hmem

/-- what is left is scanned as a part of the whole -/
theorem exists_scan_eq (h : Scanned source d offset s) : ∃ pre,
    Segment.scan .braces 0 source = (Segment.scan d offset s).map (pre ++ ·) := by
  induction h with
  | start =>
    refine ⟨[], ?_⟩
    cases Segment.scan .braces 0 source <;> rfl
  | @tag d offset s before after r _ hcut hread ih =>
    obtain ⟨pre, hpre⟩ := ih
    refine ⟨pre ++ (Segment.literals before ++
      [.tag (d.opening ++ r.raw) ⟨r.kind, r.content, offset + before.length⟩]), ?_⟩
    rw [hpre, Segment.scan_of_readTag hcut hread]
    cases Segment.scan r.next (offset + before.length + (d.opening ++ r.raw).length) r.rest with
    | error f => rfl
    | ok segs => simp [Except.map]

end Scanned

namespace TagStarts
variable {source : Text} {d : Delims} {offset : Nat} {after : Text}

theorem drop_eq (h : TagStarts source d offset after) :
    source.drop offset = d.opening ++ after := by
  obtain ⟨hs, hcut⟩ := h
  have hdrop := hs.drop_eq
  rw [Text.cut?_eq_some hcut, List.append_assoc] at hdrop
  exact Text.drop_add_length hdrop

theorem lt_length (h : TagStarts source d offset after) : offset < source.length := by
  have hlength := congrArg List.length h.drop_eq
  have hpos := d.length_opening_pos
  rw [List.length_drop, List.length_append] at hlength
  omega

/-- in a text that can be scanned, all tags are among the segments -/
theorem exists_segment (h : TagStarts source d offset after) {segs : List Segment}
    (hscan : Segment.scan .braces 0 source = .ok segs) : ∃ r, readTag d after = .ok r ∧
      .tag (d.opening ++ r.raw) ⟨r.kind, r.content, offset⟩ ∈ segs := by
  obtain ⟨hs, hcut⟩ := h
  obtain ⟨pre, hpre⟩ := hs.exists_scan_eq
  rw [hscan] at hpre
  cases hread : readTag d after with
  | error cause =>
    rw [Segment.scan_of_readTag_error hcut hread] at hpre
    cases hpre
  | ok r =>
    rw [Segment.scan_of_readTag hcut hread] at hpre
    refine ⟨r, rfl, ?_⟩
    cases hrest : Segment.scan r.next _ r.rest with
    | error f =>
      rw [hrest] at hpre
      cases hpre
    | ok rest =>
      rw [hrest] at hpre
      cases hpre
      exact List.mem_append_right _ (List.mem_append_right _ List.mem_cons_self)

end TagStarts

/-- every tag among the tokens starts where it says -/
theorem Token.reads_of_mem {source : Text} {ts : List Token} {t : Tag} {indent : Option Text}
    (h : ofText source = .ok ts) (hmem : .tag t indent ∈ ts) :
    ∃ d after, TagStarts.Reads source d after t := by
  obtain ⟨segs, hscan, rfl⟩ := exists_scan_of_ofText h
  rw [ofSegments_eq_flatMap] at hmem
  obtain ⟨line, hline, hmem⟩ := List.mem_flatMap.1 hmem
  obtain ⟨⟨raw, hraw⟩, -⟩ := exists_of_tag_mem_lineTokens hmem
  have hseg : .tag raw t ∈ segs := by
    rw [← Segment.flatten_splitLines segs]
    exact List.mem_flatten_of_mem hline hraw
  exact Scanned.start.reads_of_mem hscan hseg

end Mustache
