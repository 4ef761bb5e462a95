import Mathlib.Data.List.Induction
import Mustache.Proofs.Relocation
import Mustache.Proofs.TagStarts

/-!
# Line endings

A line may end with a line feed or with a carriage return and a line feed.  A template is parsed in
the same way with either, for a carriage return is a blank wherever blanks are looked for, and no
delimiter has one.  Only no tag may reach over a line end, for its name would be changed with it; a
comment may.

* `Text.crlf`           a text with the longer line endings
* `OneLineTags`         closed tags that are no comments keep to one line
* `readTag_crlf`        a tag read in the longer text
* `place`               where an offset comes to lie
* `Scanned.scan_crlf`   the segments of the longer text
* `parse_crlf`          parsing it
-/

namespace Mustache
namespace Text

/-! ## texts -/

/-- a text with a carriage return in front of every line feed -/
def crlf (s : Text) : Text := s.flatMap fun c => if c = '\n' then ['\r', '\n'] else [c]

theorem crlf_newline (s : Text) : crlf ('\n' :: s) = '\r' :: '\n' :: crlf s := rfl

theorem crlf_cons_of_ne {c : Char} (h : c ≠ '\n') (s : Text) : crlf (c :: s) = c :: crlf s := by
  rw [crlf, List.flatMap_cons, if_neg h]
  rfl

theorem crlf_append (s t : Text) : crlf (s ++ t) = crlf s ++ crlf t := List.flatMap_append

theorem crlf_concat_of_ne {c : Char} (h : c ≠ '\n') (s : Text) :
    crlf (s ++ [c]) = crlf s ++ [c] := by
  rw [crlf_append, crlf_cons_of_ne h]
  rfl

theorem crlf_of_notMem {s : Text} (h : '\n' ∉ s) : crlf s = s := by
  induction s with
  | nil => rfl
  | cons c s ih =>
    rw [List.mem_cons, not_or] at h
    rw [crlf_cons_of_ne (Ne.symm h.1), ih h.2]

theorem lines_crlf (s : Text) : lines (crlf s) = (lines s).map crlf := by
  induction s with
  | nil => rfl
  | cons c s ih =>
    by_cases hc : c = '\n'
    · subst hc
      rw [crlf_newline, lines_cons_of_ne (by decide), lines_newline, lines_newline, ih]
      rfl
    · rw [crlf_cons_of_ne hc, lines_cons_of_ne hc, lines_cons_of_ne hc, ih]
      cases lines s with
      | nil => rw [List.map_cons, List.headD_nil, crlf_cons_of_ne hc]; rfl
      | cons l ls => rw [List.map_cons, List.map_cons, List.headD_cons, crlf_cons_of_ne hc]; rfl

theorem respelling_crlf : Respelling crlf where
  append := crlf_append
  eq_nil_iff t := by
    rcases List.eq_nil_or_concat t with rfl | ⟨u, c, rfl⟩
    · simp [crlf]
    · by_cases hc : c = '\n'
      · subst hc
        simp [crlf]
      · simp [crlf_concat_of_ne hc]
  endsLine t := by
    rcases List.eq_nil_or_concat t with rfl | ⟨u, c, rfl⟩
    · rfl
    · by_cases hc : c = '\n'
      · subst hc
        simp [endsLine, crlf]
      · simp [endsLine, crlf_concat_of_ne hc]
  all_isLineBlank t := by
    induction t with
    | nil => rfl
    | cons c t ih =>
      by_cases hc : c = '\n'
      · subst hc
        rw [crlf_newline, List.all_cons, List.all_cons, List.all_cons, ih]
        rfl
      · rw [crlf_cons_of_ne hc, List.all_cons, List.all_cons, ih]

/-! ## blanks at the ends -/

theorem trimStart_crlf (s : Text) : trimStart (crlf s) = crlf (trimStart s) := by
  induction s with
  | nil => rfl
  | cons c s ih =>
    by_cases hc : c = '\n'
    · subst hc
      exact ih
    · rw [crlf_cons_of_ne hc, trimStart, trimStart, List.dropWhile_cons, List.dropWhile_cons]
      split
      · exact ih
      · exact (crlf_cons_of_ne hc s).symm

theorem trimEnd_concat (s : Text) (c : Char) :
    trimEnd (s ++ [c]) = if isBlank c then trimEnd s else s ++ [c] := by
  rw [trimEnd, trimStart, List.reverse_concat, List.dropWhile_cons]
  split
  · rfl
  · rw [List.reverse_cons, List.reverse_reverse]

theorem trimEnd_crlf (s : Text) : trimEnd (crlf s) = crlf (trimEnd s) := by
  induction s using List.reverseRecOn with
  | nil => rfl
  | append_singleton s c ih =>
    by_cases hc : c = '\n'
    · subst hc
      have hnewline : isBlank '\n' = true := by decide
      have hreturn : isBlank '\r' = true := by decide
      have hend : crlf (s ++ ['\n']) = crlf s ++ ['\r'] ++ ['\n'] := by
        rw [crlf_append, List.append_assoc]
        rfl
      rw [hend, trimEnd_concat, if_pos hnewline, trimEnd_concat, if_pos hreturn, trimEnd_concat,
        if_pos hnewline, ih]
    · rw [crlf_concat_of_ne hc, trimEnd_concat, trimEnd_concat]
      split
      · exact ih
      · exact (crlf_concat_of_ne hc s).symm

theorem trim_crlf (s : Text) : trim (crlf s) = crlf (trim s) := by
  rw [trim, trim, trimStart_crlf, trimEnd_crlf]

/-! ## searching -/

/-- a text that is not empty and has nothing of a line ending -/
structure Unbroken (p : Text) : Prop where
  ne_nil : p ≠ []
  newline_notMem : '\n' ∉ p
  return_notMem : '\r' ∉ p

theorem after?_crlf {p : Text} (hnewline : '\n' ∉ p) (hreturn : '\r' ∉ p) (s : Text) :
    after? p (crlf s) = (after? p s).map crlf := by
  induction p generalizing s with
  | nil => cases s <;> rfl
  | cons c p ih =>
    rw [List.mem_cons, not_or] at hnewline hreturn
    cases s with
    | nil => rfl
    | cons e s =>
      by_cases he : e = '\n'
      · subst he
        rw [crlf_newline, after?, after?, if_neg (Ne.symm hreturn.1), if_neg (Ne.symm hnewline.1)]
        rfl
      · rw [crlf_cons_of_ne he, after?, after?]
        split
        · exact ih hnewline.2 hreturn.2 s
        · rfl

theorem cut?_crlf {p : Text} (hp : p.Unbroken) (s : Text) :
    cut? p (crlf s) = (cut? p s).map fun q => (crlf q.1, crlf q.2) := by
  have hafter := after?_crlf hp.newline_notMem hp.return_notMem
  -- no occurrence begins at a line feed
  have hnone : ∀ s, after? p ('\n' :: s) = none := by
    intro s
    cases h : after? p ('\n' :: s) with
    | none => rfl
    | some r =>
      have hs := after?_eq_some h
      cases p with
      | nil => exact absurd rfl hp.ne_nil
      | cons c p =>
        obtain ⟨rfl, -⟩ := List.cons.inj hs
        exact absurd List.mem_cons_self hp.newline_notMem
  induction s with
  | nil =>
    cases p with
    | nil => exact absurd rfl hp.ne_nil
    | cons c p => rfl
  | cons e s ih =>
    have hstart := hafter (e :: s)
    by_cases he : e = '\n'
    · subst he
      rw [hnone] at hstart
      rw [crlf_newline] at hstart ⊢
      rw [cut?, hstart, cut?, hnone, cut?, hnone, ih]
      cases cut? p s <;> rfl
    · rw [crlf_cons_of_ne he] at hstart ⊢
      rw [cut?, hstart, cut?, ih]
      cases after? p (e :: s) with
      | some r => rfl
      | none =>
        cases cut? p s with
        | none => rfl
        | some q =>
          show some (e :: crlf q.1, crlf q.2) = some (crlf (e :: q.1), crlf q.2)
          rw [crlf_cons_of_ne he]

end Text

open Text (crlf crlf_append crlf_of_notMem respelling_crlf)

/-! ## one tag -/

theorem unbroken_of_isDelim {w : Text} (h : IsDelim w) : w.Unbroken :=
  ⟨h.1, blank_notMem_of_isDelim h (by decide), blank_notMem_of_isDelim h (by decide)⟩

theorem Delims.unbroken_terminator (d : Delims) (g : Option Sigil) :
    (d.terminator g).Unbroken := by
  have hclosing := unbroken_of_isDelim d.closing_isDelim
  have hcloser : ∀ g : Sigil, '\n' ∉ g.closer ∧ '\r' ∉ g.closer := by
    intro g
    cases g <;> decide
  cases g with
  | none => exact hclosing
  | some g =>
    refine ⟨List.append_ne_nil_of_right_ne_nil _ hclosing.ne_nil, ?_, ?_⟩
    · exact List.not_mem_append (hcloser g).1 hclosing.newline_notMem
    · exact List.not_mem_append (hcloser g).2 hclosing.return_notMem

theorem Sigil.newline_notMem_text (g : Option Sigil) : '\n' ∉ text g := by
  cases g with
  | none => exact List.not_mem_nil
  | some g => cases g <;> decide

theorem Sigil.read_crlf (s : Text) : read (crlf s) = ((read s).1, crlf (read s).2) := by
  cases s with
  | nil => rfl
  | cons c s =>
    by_cases hc : c = '\n'
    · subst hc
      rfl
    · rw [Text.crlf_cons_of_ne hc, read, read]
      split
      · rfl
      · rw [Text.crlf_cons_of_ne hc]

/-- a reading with other spelling; its name stays -/
def TagReading.respell (f : Text → Text) (r : TagReading) : TagReading :=
  ⟨r.kind, r.kind.respell f r.content, f r.raw, r.next, f r.rest⟩

theorem TagKind.trim_crlf {kind : TagKind} {inner : Text} (h : kind ≠ comment → '\n' ∉ inner) :
    Text.trim (crlf inner) = kind.respell crlf (Text.trim inner) := by
  by_cases hcomment : kind = comment
  · rw [hcomment]
    exact Text.trim_crlf inner
  · rw [crlf_of_notMem (h hcomment), respell_of_ne hcomment]

/-- a tag is read in the longer text as it was, but for the spelling of what is no name -/
theorem readTag_crlf {d : Delims} {s : Text}
    (h : ∀ inner rest, d.inner? s = some (inner, rest) → TagKind.ofText s ≠ .comment →
      '\n' ∉ inner) :
    readTag d (crlf s) = (readTag d s).map (TagReading.respell crlf) := by
  have hterm := d.unbroken_terminator (Sigil.read s).1
  unfold readTag
  rw [Sigil.read_crlf]
  simp only [Text.cut?_crlf hterm]
  cases hcut : Text.cut? (d.terminator (Sigil.read s).1) (Sigil.read s).2 with
  | none => rfl
  | some q =>
    obtain ⟨inner, rest⟩ := q
    have hcontent := TagKind.trim_crlf (h inner rest hcut)
    have hraw : Sigil.text (Sigil.read s).1 ++ crlf inner ++ d.terminator (Sigil.read s).1 =
        crlf (Sigil.text (Sigil.read s).1 ++ inner ++ d.terminator (Sigil.read s).1) := by
      rw [crlf_append, crlf_append, crlf_of_notMem (Sigil.newline_notMem_text _),
        crlf_of_notMem hterm.newline_notMem]
    simp only [Option.map_some, hcontent, hraw]
    rw [TagKind.ofText, Delims.after_respell]
    cases d.after (TagKind.ofSigil (Sigil.read s).1) (Text.trim inner) <;> rfl

/-! ## scanning -/

/-- every tag that is closed keeps to one line, unless it is a comment -/
def OneLineTags (source : Text) : Prop :=
  ∀ d offset after, TagStarts source d offset after →
    ∀ inner rest, d.inner? after = some (inner, rest) → TagKind.ofText after ≠ .comment →
      '\n' ∉ inner

/-- the offset in the longer text of what stands at an offset of `source` -/
def place (source : Text) (offset : Nat) : Nat := (crlf (source.take offset)).length

theorem place_add {source a b : Text} {offset : Nat} (h : source.drop offset = a ++ b) :
    place source (offset + a.length) = place source offset + (crlf a).length := by
  rw [place, List.take_add, h, List.take_left, crlf_append, List.length_append]
  rfl

theorem Segment.literals_crlf (s : Text) (g : Nat → Nat) :
    literals (crlf s) = (literals s).map (move crlf g) := by
  rw [literals, literals, Text.lines_crlf, List.map_map, List.map_map]
  rfl

theorem Segment.tag_crlf (d : Delims) (r : TagReading) (g : Nat → Nat) (offset : Nat) :
    move crlf g (tag (d.opening ++ r.raw) ⟨r.kind, r.content, offset⟩) =
      tag (d.opening ++ crlf r.raw) ⟨r.kind, r.kind.respell crlf r.content, g offset⟩ := by
  show tag (crlf (d.opening ++ r.raw)) _ = _
  rw [crlf_append, crlf_of_notMem (unbroken_of_isDelim d.opening_isDelim).newline_notMem]
  rfl

namespace Scanned
variable {source : Text} {d : Delims} {offset : Nat} {s before after : Text}

theorem place_before (h : Scanned source d offset s)
    (hcut : Text.cut? d.opening s = some (before, after)) :
    place source (offset + before.length) = place source offset + (crlf before).length := by
  have hdrop := h.drop_eq
  rw [Text.cut?_eq_some hcut, List.append_assoc] at hdrop
  exact place_add hdrop

theorem place_rest (h : Scanned source d offset s)
    (hcut : Text.cut? d.opening s = some (before, after)) {r : TagReading}
    (hread : readTag d after = .ok r) :
    place source (offset + before.length + (d.opening ++ r.raw).length) =
      place source (offset + before.length) + (d.opening ++ crlf r.raw).length := by
  have hdrop := h.drop_eq
  rw [Segment.eq_append_of_readTag hcut hread, List.append_assoc] at hdrop
  rw [place_add (Text.drop_add_length hdrop), crlf_append,
    crlf_of_notMem (unbroken_of_isDelim d.opening_isDelim).newline_notMem]

/-- the segments of the longer text are those of the other one, moved and with the longer ends -/
theorem scan_crlf (hone : OneLineTags source) (h : Scanned source d offset s) :
    Segment.scan d (place source offset) (crlf s) =
      moved (place source) (List.map (Segment.move crlf (place source)))
        (Segment.scan d offset s) := by
  have hcrlf : ∀ {d : Delims} {s : Text} {q : Option (Text × Text)},
      Text.cut? d.opening s = q →
      Text.cut? d.opening (crlf s) = q.map fun q => (crlf q.1, crlf q.2) := by
    intro d s q hq
    rw [Text.cut?_crlf (unbroken_of_isDelim d.opening_isDelim), hq]
  fun_induction Segment.scan d offset s with
  | case1 d offset s hcut =>
    rw [Segment.scan_literals (hcrlf hcut), Segment.literals_crlf]
    rfl
  | case2 d offset s before after hcut start cause hread =>
    have hread' := readTag_crlf (hone d _ after (.intro h hcut))
    rw [hread] at hread'
    rw [Segment.scan_of_readTag_error (hcrlf hcut) hread', ← h.place_before hcut]
    rfl
  | case3 d offset s before after hcut start r hread raw f hrest ih =>
    have hread' := readTag_crlf (hone d _ after (.intro h hcut))
    rw [hread] at hread'
    rw [Segment.scan_of_readTag (hcrlf hcut) hread', ← h.place_before hcut]
    show Except.map _ (Segment.scan r.next (_ + (d.opening ++ crlf r.raw).length) (crlf r.rest)) = _
    rw [← h.place_rest hcut hread, ih (h.tag hcut hread), hrest]
    rfl
  | case4 d offset s before after hcut start r hread raw rest hrest =>
    rename_i ih
    have hread' := readTag_crlf (hone d _ after (.intro h hcut))
    rw [hread] at hread'
    rw [Segment.scan_of_readTag (hcrlf hcut) hread', ← h.place_before hcut]
    show Except.map _ (Segment.scan r.next (_ + (d.opening ++ crlf r.raw).length) (crlf r.rest)) = _
    rw [← h.place_rest hcut hread, ih (h.tag hcut hread), hrest]
    refine congrArg Except.ok ?_
    rw [List.map_append, List.map_cons, Segment.tag_crlf, ← Segment.literals_crlf]
    rfl

end Scanned

/-! ## parsing -/

theorem Token.ofText_crlf {source : Text} (hone : OneLineTags source) :
    ofText (crlf source) = moved (place source) (List.map (move crlf (place source)))
      (ofText source) := by
  have hscan : Segment.scan .braces 0 (crlf source) = _ := Scanned.start.scan_crlf hone
  rw [ofText, ofText, hscan]
  cases hsegs : Segment.scan .braces 0 source with
  | error f => rfl
  | ok segs =>
    refine congrArg Except.ok (ofSegments_move respelling_crlf fun line hline lead t halone => ?_)
    -- indentation is in front of the line end
    have hspaces := halone.spaces (Segment.onOneLine_of_scan hsegs) hline
    exact crlf_of_notMem (hspaces.notMem (by decide) (by decide) (by decide))

theorem Tree.ofText_crlf {source : Text} (hone : OneLineTags source) :
    ofText (crlf source) = moved (place source) (respell crlf) (ofText source) := by
  rw [ofText, ofText, Token.ofText_crlf hone]
  cases Token.ofText source with
  | error f => rfl
  | ok ts => exact ofTokens_move respelling_crlf (place source) ts

theorem Text.count_crlf (s : Text) : (crlf s).count '\n' = s.count '\n' := by
  induction s with
  | nil => rfl
  | cons c s ih =>
    by_cases hc : c = '\n'
    · subst hc
      rw [crlf_newline, List.count_cons_of_ne (by decide), List.count_cons_self,
        List.count_cons_self, ih]
    · rw [crlf_cons_of_ne hc, List.count_cons_of_ne hc, List.count_cons_of_ne hc, ih]

/-- the last line has no end, so its text stays -/
theorem Text.takeWhile_reverse_crlf (s : Text) :
    (crlf s).reverse.takeWhile (· ≠ '\n') = s.reverse.takeWhile (· ≠ '\n') := by
  induction s using List.reverseRecOn with
  | nil => rfl
  | append_singleton s c ih =>
    by_cases hc : c = '\n'
    · subst hc
      simp [crlf]
    · rw [crlf_concat_of_ne hc, List.reverse_concat, List.reverse_concat,
        List.takeWhile_cons, List.takeWhile_cons, ih]

theorem Position.ofOffset_crlf (source : Text) (offset : Nat) :
    ofOffset (crlf source) (place source offset) = ofOffset source offset := by
  have htake : (crlf source).take (place source offset) = crlf (source.take offset) := by
    have hsplit : crlf source = crlf (source.take offset) ++ crlf (source.drop offset) := by
      rw [← crlf_append, List.take_append_drop]
    rw [hsplit]
    exact List.take_left
  rw [ofOffset, htake, Text.count_crlf, Text.takeWhile_reverse_crlf]
  rfl

/-- **Line endings change no structure.**  In a text every tag that is closed and no comment keeps
to one line.  Then the text with a carriage return in front of every line feed is parsed to the same
tree, with the longer line endings in its text nodes and nowhere else; or it fails as the text does,
with the same line and column. -/
theorem parse_crlf {source : Text} (hone : OneLineTags source) :
    (∀ tree, parse source = .ok tree → parse (crlf source) = .ok (tree.respell crlf)) ∧
    ∀ e, parse source = .error e → parse (crlf source) = .error e := by
  have hcrlf := Tree.ofText_crlf hone
  constructor
  · intro tree htree
    rw [parse_eq_ok_iff] at htree
    rw [parse_eq_ok_iff, hcrlf, htree]
    rfl
  · intro e he
    obtain ⟨f, hf, rfl⟩ := parse_eq_error_iff.1 he
    refine parse_eq_error_iff.2 ⟨f.move (place source), ?_, ?_⟩
    · rw [hcrlf, hf]
      rfl
    · exact congrArg (ParseError.mk f.cause) (Position.ofOffset_crlf source f.offset)

/-- what keeps to one line can be seen in the segments -/
theorem oneLineTags_of_scan {source : Text} {segs : List Segment}
    (hscan : Segment.scan .braces 0 source = .ok segs)
    (h : ∀ s ∈ segs, ∀ t ∈ s.tag?, t.kind ≠ .comment → '\n' ∉ s.text) : OneLineTags source := by
  intro d offset after hstarts inner rest hinner hcomment hmem
  obtain ⟨r, hread, hseg⟩ := hstarts.exists_segment hscan
  obtain ⟨inner', hcut, -, hkind, -, hraw⟩ := readTag_eq_ok hread
  have hsame : some (inner', r.rest) = some (inner, rest) := hcut.symm.trans hinner
  obtain ⟨rfl, -⟩ := Prod.mk.inj (Option.some.inj hsame)
  refine h _ hseg _ rfl (fun hk => hcomment (hkind.symm.trans hk)) ?_
  rw [Segment.text, hraw]
  simp [hmem]

/-- a block with a comment of two lines in it -/
def twoLines : Text := " {{#s}}\n\x7b\x7b!x\ny\x7d\x7db\n{{/s}}\n".toList

/-- the same block, left open -/
def leftOpen : Text := "a\n {{#s}}\n".toList

theorem parse_crlf_twoLines :
    OneLineTags twoLines ∧ OneLineTags leftOpen ∧
    parse twoLines = .ok [.block (.dotted ['s'] []) false [.text ['b', '\n']]] ∧
    parse (crlf twoLines) = .ok [.block (.dotted ['s'] []) false [.text ['b', '\r', '\n']]] ∧
    parse (crlf leftOpen) = .error ⟨.unclosedBlock ['s'], ⟨2, 2⟩⟩ := by
  have hscan : Segment.scan .braces 0 twoLines = .ok [.literal [' '],
      .tag "{{#s}}".toList ⟨.block false, ['s'], 1⟩, .literal ['\n'],
      .tag "\x7b\x7b!x\ny\x7d\x7d".toList ⟨.comment, "x\ny".toList, 8⟩, .literal ['b', '\n'],
      .tag "{{/s}}".toList ⟨.close, ['s'], 18⟩, .literal ['\n']] := by
    with_unfolding_all rfl
  have hopenscan : Segment.scan .braces 0 leftOpen = .ok [.literal ['a', '\n'], .literal [' '],
      .tag "{{#s}}".toList ⟨.block false, ['s'], 3⟩, .literal ['\n']] := by
    with_unfolding_all rfl
  have hone : OneLineTags twoLines := oneLineTags_of_scan hscan (by decide)
  have hopenone : OneLineTags leftOpen := oneLineTags_of_scan hopenscan (by decide)
  have hparse : parse twoLines = .ok [.block (.dotted ['s'] []) false [.text ['b', '\n']]] :=
    parse_eq_ok_iff.2 (by with_unfolding_all rfl)
  have hopen : parse leftOpen = .error ⟨.unclosedBlock ['s'], ⟨2, 2⟩⟩ :=
    parse_eq_error_iff.2 ⟨⟨.unclosedBlock ['s'], 3⟩, by with_unfolding_all rfl, by rfl⟩
  exact ⟨hone, hopenone, hparse, (parse_crlf hone).1 _ hparse, (parse_crlf hopenone).2 _ hopen⟩

end Mustache
