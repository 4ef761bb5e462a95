import Mathlib.Data.List.Basic
import Mustache.Proofs.Concatenation
import Mustache.Proofs.Relocation

/-!
# Comments alone on their line

A comment with a line for itself can be put between any two lines of a template, inside blocks too.
One token is left of the line, which leaves no node; and all the line does to the tokens behind it
is to move them, which no tree depends on.

* `commentLine`               a comment and its line
* `commentSegments`           its segments, a line for one tag
* `Token.ofText_commentLine`  what is left of the line
* `Tree.ofTokens_comment`     the token of a comment leaves nothing
* `parse_comment_line`        parsing with the line and without it
-/

namespace Mustache

/-- a comment, with text around it up to the end of the line; the comment may hold line feeds too -/
def commentLine (lead content trail : Text) : Text :=
  lead ++ (['{', '{', '!'] ++ content ++ ['}', '}']) ++ trail ++ ['\n']

section
variable {lead content trail : Text}

theorem wholeLines_commentLine : Text.WholeLines (commentLine lead content trail) := by
  refine Text.wholeLines_iff.2 fun c hc => ?_
  rw [commentLine, List.getLast?_concat] at hc
  exact (Option.some.inj hc).symm

theorem readTag_comment (hcontent : Text.OnlyAtEnd ['}', '}'] content) (rest : Text) :
    readTag .braces (['!'] ++ content ++ ['}', '}'] ++ rest) =
      .ok ⟨.comment, Text.trim content, ['!'] ++ content ++ ['}', '}'], .braces, rest⟩ := by
  have hcut : Text.cut? (Delims.braces.terminator (some .bang)) (content ++ ['}', '}'] ++ rest) =
      some (content, rest) := hcontent.cut? rest
  show readTag .braces ('!' :: (content ++ ['}', '}'] ++ rest)) = _
  unfold readTag
  simp only [Sigil.read, Sigil.ofChar?, hcut]
  rfl

/-- the segments of the line -/
def commentSegments (lead content trail : Text) : List Segment :=
  Segment.literals lead ++
    [.tag (Delims.braces.opening ++ (['!'] ++ content ++ ['}', '}']))
      ⟨.comment, Text.trim content, lead.length⟩, .literal (trail ++ ['\n'])]

theorem scan_commentLine (hlead : lead.Spaces) (hcontent : Text.OnlyAtEnd ['}', '}'] content)
    (htrail : trail.Spaces) : Segment.scan .braces 0 (commentLine lead content trail) =
      .ok (commentSegments lead content trail) := by
  have hline : commentLine lead content trail =
      lead ++ ['{', '{'] ++ (['!'] ++ content ++ ['}', '}'] ++ (trail ++ ['\n'])) := by
    simp [commentLine]
  have hopen : '{' ∉ lead := hlead.notMem (by decide) (by decide) (by decide)
  have hcut : Text.cut? Delims.braces.opening (commentLine lead content trail) =
      some (lead, ['!'] ++ content ++ ['}', '}'] ++ (trail ++ ['\n'])) := by
    rw [hline]
    exact (Text.onlyAtEnd_of_notMem hopen).cut? _
  -- no other tag begins on the line
  have hno : '{' ∉ trail ++ ['\n'] := by
    rw [List.mem_append, not_or]
    exact ⟨htrail.notMem (by decide) (by decide) (by decide), by decide⟩
  have hnone : Text.cut? Delims.braces.opening (trail ++ ['\n']) = none :=
    (Text.onlyAtEnd_of_notMem hno).cut?_eq_none (List.cons_ne_nil _ _)
  have hnewline : '\n' ∉ trail := htrail.notMem (by decide) (by decide) (by decide)
  have hrest : Segment.literals (trail ++ ['\n']) = [.literal (trail ++ ['\n'])] :=
    congrArg (List.map Segment.literal) (Text.lines_append_newline hnewline)
  rw [Segment.scan_tag hcut (readTag_comment hcontent _) (Segment.scan_literals hnone), hrest,
    Nat.zero_add]
  rfl

/-- a line feed of the comment ends no line -/
theorem cutIntoLines_commentSegments (content : Text) (hlead : lead.Spaces)
    (htrail : trail.Spaces) : Segment.CutIntoLines (commentSegments lead content trail)
      [commentSegments lead content trail] := by
  have hbody : '\n' ∉ (Segment.literals lead ++ [Segment.tag
      (Delims.braces.opening ++ (['!'] ++ content ++ ['}', '}']))
      ⟨.comment, Text.trim content, lead.length⟩]).flatMap Segment.literalText := by
    have hliteral : (Segment.literals lead).flatMap Segment.literalText = lead := by
      simp [Segment.literals, List.flatMap_map, Segment.literalText, Text.flatten_lines]
    rw [List.flatMap_append, hliteral, List.flatMap_singleton]
    show '\n' ∉ lead ++ []
    rw [List.append_nil]
    exact hlead.notMem (by decide) (by decide) (by decide)
  have hnewline : '\n' ∉ trail := htrail.notMem (by decide) (by decide) (by decide)
  have hcut := Segment.CutIntoLines.line hbody hnewline .nil
  rwa [List.append_assoc] at hcut

theorem alone_commentSegments (content : Text) (hlead : lead.Spaces) (htrail : trail.Spaces) :
    Segment.Alone (commentSegments lead content trail) lead
      ⟨.comment, Text.trim content, lead.length⟩ := by
  refine ⟨Text.lines lead, [trail ++ ['\n']], _, rfl, (Text.flatten_lines lead).symm, ?_, by simp⟩
  rw [Text.flatten_lines, List.flatten_singleton, ← List.append_assoc]
  intro c hc
  rcases List.mem_append.1 hc with hc | hc
  · have hspace : c = ' ' ∨ c = '\t' ∨ c = '\r' :=
      (List.mem_append.1 hc).elim (hlead c) (htrail c)
    simpa only [or_assoc] using Or.inl hspace
  · exact .inr (.inr (.inr (List.mem_singleton.1 hc)))

theorem Token.ofText_commentLine (hlead : lead.Spaces)
    (hcontent : Text.OnlyAtEnd ['}', '}'] content) (htrail : trail.Spaces) :
    ofText (commentLine lead content trail) = .ok [.tag ⟨.comment, Text.trim content, lead.length⟩
      (if lead = [] then none else some lead)] := by
  have hlines := cutIntoLines_commentSegments content hlead htrail
  have halone := alone_commentSegments content hlead htrail
  rw [ofText, scan_commentLine hlead hcontent htrail]
  show Except.ok (ofSegments (commentSegments lead content trail)) = _
  rw [ofSegments_eq_flatMap, Segment.splitLines_of_cutIntoLines hlines, List.flatMap_singleton,
    lineRule_iff.1 (.alone halone)]

theorem Delims.atEnd?_commentLine (hlead : lead.Spaces)
    (hcontent : Text.OnlyAtEnd ['}', '}'] content) (htrail : trail.Spaces) :
    atEnd? (commentLine lead content trail) = some .braces := by
  rw [atEnd?, scan_commentLine hlead hcontent htrail]
  show some (List.foldl behind .braces (commentSegments lead content trail)) = _
  rw [commentSegments, List.foldl_append, foldl_behind_literals]
  rfl

end

/-! ## parsing -/

/-- the token of a comment leaves nothing, wherever it stands -/
theorem Tree.ofTokens_comment (ts us : List Token) (content : Text) (offset : Nat)
    (indent : Option Text) :
    ofTokens (ts ++ .tag ⟨.comment, content, offset⟩ indent :: us) = ofTokens (ts ++ us) := by
  rw [ofTokens, ofTokens, Nest.run_append, Nest.run_append]
  rfl

theorem Token.exists_ofText_of_atEnd? {source : Text} {d : Delims}
    (h : Delims.atEnd? source = some d) : ∃ ts, ofText source = .ok ts := by
  rw [Delims.atEnd?] at h
  split at h
  · next segs hscan =>
    rw [ofText, hscan]
    exact ⟨_, rfl⟩
  · cases h

/-- tokens moved to one place, from wherever they were -/
theorem Token.map_move_map_move (g : Nat → Nat) (ts : List Token) :
    (ts.map (move id g)).map (move id fun _ => 0) = ts.map (move id fun _ => 0) := by
  rw [List.map_map]
  exact List.map_congr_left fun t _ => move_move id id g _ t

/-- it does not matter to a tree where the tags are -/
theorem Tree.ofTokens_eq_ok_iff {ts us : List Token} {tree : Tree}
    (h : ts.map (Token.move id fun _ => 0) = us.map (Token.move id fun _ => 0)) :
    ofTokens ts = .ok tree ↔ ofTokens us = .ok tree := by
  rw [← ofTokens_move_eq_ok_iff fun _ => 0, h, ofTokens_move_eq_ok_iff]

/-- **A comment line is invisible.**  The text in front of it has no open line at its end and leaves
the braces in force, but blocks may be open there.  The comment ends at the first closing delimiter,
and only spaces, tabs and carriage returns stand beside it.  Then the same tree is parsed, or none,
with the line and without it. -/
theorem parse_comment_line {a lead content trail : Text}
    (hlines : a = [] ∨ a.getLast? = some '\n') (hdelims : Delims.atEnd? a = some .braces)
    (hlead : ∀ c ∈ lead, c = ' ' ∨ c = '\t' ∨ c = '\r')
    (hcontent : Text.OnlyAtEnd ['}', '}'] content)
    (htrail : ∀ c ∈ trail, c = ' ' ∨ c = '\t' ∨ c = '\r') (b : Text) (tree : Tree) :
    parse (a ++ commentLine lead content trail ++ b) = .ok tree ↔ parse (a ++ b) = .ok tree := by
  have ha : Text.WholeLines a := Text.wholeLines_iff_getLast?.2 hlines
  obtain ⟨ts, hts⟩ := Token.exists_ofText_of_atEnd? hdelims
  have hcomment := Token.ofText_commentLine hlead hcontent htrail
  have hwith := Token.ofText_append hcomment wholeLines_commentLine
    (Delims.atEnd?_commentLine hlead hcontent htrail) b
  rw [parse_eq_ok_iff, parse_eq_ok_iff, List.append_assoc, Tree.ofText, Tree.ofText,
    Token.ofText_append hts ha hdelims, Token.ofText_append hts ha hdelims, hwith]
  cases Token.ofText b with
  | error f =>
    constructor <;> intro h <;> cases h
  | ok us =>
    show Tree.ofTokens (ts ++ .tag ⟨.comment, _, _⟩ _ ::
        (us.map (Token.move id _)).map (Token.move id _)) = _ ↔
      Tree.ofTokens (ts ++ us.map (Token.move id _)) = _
    rw [Tree.ofTokens_comment]
    refine Tree.ofTokens_eq_ok_iff ?_
    simp only [List.map_append, Token.map_move_map_move]

/-- an open block, behind a change of the delimiters and in front of another one -/
def unfinished : Text := "{{=<% %>=}}\n<%#s%>\nx\n<%={{ }}=%>\n".toList

/-- a comment of two lines, with an opening delimiter in it -/
def remark : Text := "a\n\x7b\x7bb".toList

-- the text in front of the line and the text behind it become one text
theorem parse_comment_line_unfinished :
    unfinished.getLast? = some '\n' ∧ Delims.atEnd? unfinished = some .braces ∧
    Text.OnlyAtEnd ['}', '}'] remark ∧
    parse (unfinished ++ commentLine [' ', '\t'] remark ['\r'] ++ "y{{/s}}".toList) =
      .ok [.block (.dotted ['s'] []) false [.text "x\ny".toList]] := by
  have hlast : unfinished.getLast? = some '\n' := by rfl
  have hdelims : Delims.atEnd? unfinished = some .braces := by with_unfolding_all rfl
  have hlead : ∀ c ∈ [' ', '\t'], c = ' ' ∨ c = '\t' ∨ c = '\r' := by simp
  have hcontent : Text.OnlyAtEnd ['}', '}'] remark := by decide
  have htrail : ∀ c ∈ ['\r'], c = ' ' ∨ c = '\t' ∨ c = '\r' := by simp
  have hwithout : parse (unfinished ++ "y{{/s}}".toList) =
      .ok [.block (.dotted ['s'] []) false [.text "x\ny".toList]] :=
    parse_eq_ok_iff.2 (by with_unfolding_all rfl)
  refine ⟨hlast, hdelims, hcontent, ?_⟩
  exact (parse_comment_line (.inr hlast) hdelims hlead hcontent htrail _ _).2 hwithout

end Mustache
