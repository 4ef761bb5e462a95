import Mathlib.Data.List.Forall2
import Mustache.Token

/-!
# The rule for lines

The tokens of a text are made in one pass, with the segments of the line so far at hand.  Here they
are shown to be what the rule for a whole line gives for one line after the other.

* `Text.Spaces`             what may stand beside a tag that is alone on its line
* `Segment.splitLines`      the lines of the segments, all at once
* `Segment.CutIntoLines`    the same as a relation: where a line ends
* `Segment.Alone`           a tag that has its line for itself
* `LineRule`                what is left of a line
* `Token.ofText_eq_ok_iff`  the tokens of a text are what the rule leaves of its lines
-/

namespace Mustache

/-- what may stand beside a tag that is alone on its line -/
def Text.Spaces (s : Text) : Prop := ∀ c ∈ s, c = ' ' ∨ c = '\t' ∨ c = '\r'

theorem Text.Spaces.notMem {s : Text} (h : s.Spaces) {c : Char} (hspace : c ≠ ' ') (htab : c ≠ '\t')
    (hreturn : c ≠ '\r') : c ∉ s := by
  intro hmem
  rcases h c hmem with rfl | rfl | rfl
  · exact hspace rfl
  · exact htab rfl
  · exact hreturn rfl

namespace Segment

/-! ## lines -/

/-- the literal text of a segment -/
def literalText : Segment → Text
  | literal t => t
  | tag _ _ => []

/-- the segments line by line; a line goes on until literal text ends it -/
def splitLines : List Segment → List (List Segment)
  | [] => []
  | s :: segs =>
    if s.endsLine then [s] :: splitLines segs
    else
      match splitLines segs with
      | [] => [[s]]
      | l :: ls => (s :: l) :: ls

/-- Each line ends after the first line feed of literal text; only the last line may have none, and
a line feed inside a tag ends no line. -/
inductive CutIntoLines : List Segment → List (List Segment) → Prop where
  | nil : CutIntoLines [] []
  | last {line : List Segment} :
      line ≠ [] → '\n' ∉ line.flatMap literalText → CutIntoLines line [line]
  | line {body rest : List Segment} {t : Text} {lines : List (List Segment)} :
      '\n' ∉ body.flatMap literalText → '\n' ∉ t → CutIntoLines rest lines →
      CutIntoLines (body ++ literal (t ++ ['\n']) :: rest)
        ((body ++ [literal (t ++ ['\n'])]) :: lines)

theorem endsLine_iff {s : Segment} : s.endsLine = true ↔ ∃ t, s = literal (t ++ ['\n']) := by
  cases s with
  | literal t => simp [endsLine, Text.endsLine, List.getLast?_eq_some_iff]
  | tag raw t => simp [endsLine]

theorem endsLine_of_notMem {s : Segment} (h : '\n' ∉ s.literalText) : s.endsLine = false := by
  rw [Bool.eq_false_iff, ne_eq, endsLine_iff]
  rintro ⟨t, rfl⟩
  simp [literalText] at h

theorem flatten_splitLines (segs : List Segment) : (splitLines segs).flatten = segs := by
  induction segs with
  | nil => rfl
  | cons s segs ih =>
    rw [splitLines]
    split
    · rw [List.flatten_cons, ih, List.singleton_append]
    · cases hl : splitLines segs with
      | nil => simpa [hl] using ih
      | cons l ls => simpa [hl] using ih

/-- no literal text but at its end has a line feed -/
def OnOneLine (s : Segment) : Prop := '\n' ∉ s.literalText.dropLast

theorem splitLines_append {body : List Segment} (h : '\n' ∉ body.flatMap literalText)
    (segs : List Segment) : splitLines (body ++ segs) =
      if body = [] then splitLines segs
      else
        match splitLines segs with
        | [] => [body]
        | l :: ls => (body ++ l) :: ls := by
  induction body with
  | nil => rfl
  | cons s body ih =>
    rw [List.flatMap_cons, List.mem_append, not_or] at h
    rw [List.cons_append, splitLines, endsLine_of_notMem h.1, ih h.2, if_neg (List.cons_ne_nil s _)]
    by_cases hb : body = []
    · subst hb
      cases splitLines segs <;> rfl
    · rw [if_neg hb]
      cases splitLines segs <;> rfl

theorem splitLines_of_cutIntoLines {segs : List Segment} {lines : List (List Segment)}
    (h : CutIntoLines segs lines) : splitLines segs = lines := by
  induction h with
  | nil => rfl
  | @last line hne hnl =>
    have := splitLines_append hnl []
    rwa [List.append_nil, if_neg hne] at this
  | @line body rest t lines hbody ht _ ih =>
    have hend : (literal (t ++ ['\n'])).endsLine = true := endsLine_iff.2 ⟨t, rfl⟩
    rw [splitLines_append hbody, splitLines, if_pos hend, ih]
    split
    · next hb => rw [hb, List.nil_append]
    · rfl

theorem newline_notMem_of_onOneLine {s : Segment} (h : OnOneLine s) (hend : ¬ s.endsLine = true) :
    '\n' ∉ s.literalText := by
  cases s with
  | tag raw t => exact List.not_mem_nil
  | literal t =>
    rcases List.eq_nil_or_concat' t with rfl | ⟨u, c, rfl⟩
    · exact List.not_mem_nil
    · have hu : '\n' ∉ u := by simpa [OnOneLine, literalText] using h
      have hc : '\n' ≠ c := by
        rintro rfl
        exact hend (endsLine_iff.2 ⟨u, rfl⟩)
      simpa [literalText, hu] using hc

theorem cutIntoLines_splitLines {segs : List Segment} (h : ∀ s ∈ segs, OnOneLine s) :
    CutIntoLines segs (splitLines segs) := by
  induction segs with
  | nil => exact .nil
  | cons s segs ih =>
    have hs := h s List.mem_cons_self
    have hcut := ih fun s' hs' => h s' (List.mem_cons_of_mem _ hs')
    rw [splitLines]
    split
    · next hend =>
      obtain ⟨t, rfl⟩ := endsLine_iff.1 hend
      have ht : '\n' ∉ t := by simpa [OnOneLine, literalText] using hs
      have hnil : '\n' ∉ ([] : List Segment).flatMap literalText := List.not_mem_nil
      exact .line hnil ht hcut
    · next hend =>
      have hnl := newline_notMem_of_onOneLine hs hend
      generalize splitLines segs = lines at hcut
      cases hcut with
      | nil => exact .last (List.cons_ne_nil _ _) (by simpa using hnl)
      | last hne hrest =>
        refine .last (List.cons_ne_nil _ _) ?_
        rw [List.flatMap_cons, List.mem_append, not_or]
        exact ⟨hnl, hrest⟩
      | @line body rest t lines hbody ht hrest =>
        have hcons : '\n' ∉ (s :: body).flatMap literalText := by
          rw [List.flatMap_cons, List.mem_append, not_or]
          exact ⟨hnl, hbody⟩
        exact .line hcons ht hrest

/-- only the last segment of a line ends it -/
theorem endsLine_of_mem_dropLast {segs line : List Segment} (h : line ∈ splitLines segs)
    {s : Segment} (hs : s ∈ line.dropLast) : s.endsLine = false := by
  induction segs generalizing line with
  | nil => cases h
  | cons s' segs ih =>
    rw [splitLines] at h
    split at h
    · rcases List.mem_cons.1 h with rfl | h
      · cases hs
      · exact ih h hs
    · next hend =>
      cases hl : splitLines segs with
      | nil =>
        rw [hl] at h
        obtain rfl := List.mem_singleton.1 h
        cases hs
      | cons l ls =>
        rw [hl] at h ih
        rcases List.mem_cons.1 h with rfl | h
        · cases l with
          | nil => cases hs
          | cons s'' l =>
            rcases List.mem_cons.1 hs with rfl | hs
            · exact Bool.eq_false_iff.2 hend
            · exact ih List.mem_cons_self hs
        · exact ih (List.mem_cons_of_mem _ h) hs

theorem onOneLine_of_mem_literals {s : Text} {seg : Segment} (h : seg ∈ literals s) :
    OnOneLine seg := by
  obtain ⟨l, hl, rfl⟩ := List.mem_map.1 h
  exact Text.newline_notMem_dropLast hl

theorem onOneLine_of_scan {d : Delims} {offset : Nat} {s : Text} {segs : List Segment}
    (h : scan d offset s = .ok segs) : ∀ seg ∈ segs, OnOneLine seg := by
  fun_induction scan d offset s generalizing segs with
  | case1 d offset s hc =>
    cases h
    exact fun seg hseg => onOneLine_of_mem_literals hseg
  | case2 => cases h
  | case3 => cases h
  | case4 d offset s before after hc start r hr raw rest hrest =>
    rename_i ih
    cases h
    intro seg hseg
    rcases List.mem_append.1 hseg with hseg | hseg
    · exact onOneLine_of_mem_literals hseg
    · rcases List.mem_cons.1 hseg with rfl | hseg
      · exact List.not_mem_nil
      · exact ih hrest seg hseg

theorem tag_notMem_literals {s raw : Text} {t : Tag} : tag raw t ∉ literals s := by
  intro hmem
  obtain ⟨l, -, hl⟩ := List.mem_map.1 hmem
  cases hl

/-- a tag is where the segments before it end -/
theorem offset_of_scan {d : Delims} {offset : Nat} {s raw : Text} {segs pre post : List Segment}
    {t : Tag} (h : scan d offset s = .ok segs) (hsegs : segs = pre ++ tag raw t :: post) :
    t.offset = offset + (pre.flatMap text).length := by
  fun_induction scan d offset s generalizing segs pre with
  | case1 d offset s hc =>
    cases h
    exact absurd (hsegs ▸ List.mem_append_right pre List.mem_cons_self) tag_notMem_literals
  | case2 => cases h
  | case3 => cases h
  | case4 d offset s before after hc start r hr raw' rest =>
    rename_i hrest ih
    cases h
    clear_value raw'
    rcases List.append_eq_append_iff.1 hsegs with ⟨mid, rfl, hmid⟩ | ⟨mid, hbefore, hmid⟩
    · cases mid with
      | nil =>
        cases hmid
        rw [List.append_nil, flatMap_text_literals]
      | cons m mid =>
        obtain ⟨rfl, hrest'⟩ := List.cons.inj hmid
        rw [ih hrest hrest', List.flatMap_append, List.flatMap_cons, flatMap_text_literals,
          List.length_append, List.length_append]
        show start + raw'.length + _ = offset + (before.length + (raw'.length + _))
        omega
    · cases mid with
      | nil =>
        cases hmid
        rw [List.append_nil] at hbefore
        rw [← hbefore, flatMap_text_literals]
      | cons m mid =>
        obtain ⟨rfl, -⟩ := List.cons.inj hmid
        exact absurd (hbefore ▸ List.mem_append_right pre List.mem_cons_self) tag_notMem_literals

/-! ## one line -/

/-- A tag that has its line for itself: no variable, with nothing but spaces, tabs and the
characters of a line end around it; `lead` is the text in front of it. -/
def Alone (line : List Segment) (lead : Text) (t : Tag) : Prop :=
  ∃ (pre post : List Text) (raw : Text),
    line = pre.map literal ++ tag raw t :: post.map literal ∧ lead = pre.flatten ∧
      (∀ c ∈ pre.flatten ++ post.flatten, c = ' ' ∨ c = '\t' ∨ c = '\r' ∨ c = '\n') ∧
      t.kind ∈ [.block false, .block true, .close, .comment, .inclusion, .delims]

/-- the text in front of a tag is on the line of the tag -/
theorem Alone.newline_notMem {segs line : List Segment} {lead : Text} {t : Tag}
    (h : Alone line lead t) (hsegs : ∀ s ∈ segs, OnOneLine s) (hline : line ∈ splitLines segs) :
    '\n' ∉ lead := by
  obtain ⟨pre, post, raw, rfl, rfl, -⟩ := h
  intro hmem
  obtain ⟨p, hp, hnl⟩ := List.mem_flatten.1 hmem
  have hpre : literal p ∈ pre.map literal := List.mem_map.2 ⟨p, hp, rfl⟩
  have hlast : literal p ∈ (pre.map literal ++ tag raw t :: post.map literal).dropLast := by
    rw [List.dropLast_append_cons]
    exact List.mem_append_left _ hpre
  have hin : literal p ∈ segs := by
    rw [← flatten_splitLines segs]
    exact List.mem_flatten_of_mem hline (List.mem_append_left _ hpre)
  have hend : ¬ (literal p).endsLine = true := by
    rw [endsLine_of_mem_dropLast hline hlast]
    exact Bool.false_ne_true
  exact newline_notMem_of_onOneLine (hsegs _ hin) hend hnl

theorem Alone.spaces {segs line : List Segment} {lead : Text} {t : Tag} (h : Alone line lead t)
    (hsegs : ∀ s ∈ segs, OnOneLine s) (hline : line ∈ splitLines segs) : lead.Spaces := by
  have hnewline := h.newline_notMem hsegs hline
  obtain ⟨pre, post, raw, -, rfl, hblank, -⟩ := h
  intro c hc
  rcases hblank c (List.mem_append_left _ hc) with hspace | htab | hreturn | hfeed
  · exact .inl hspace
  · exact .inr (.inl htab)
  · exact .inr (.inr hreturn)
  · exact absurd (hfeed ▸ hc) hnewline

theorem eq_map_literal {l : List Segment} (h : ∀ s ∈ l, s.tag? = none) :
    l = (l.map text).map literal := by
  induction l with
  | nil => rfl
  | cons s l ih =>
    rw [List.map_cons, List.map_cons, ← ih fun s' hs' => h s' (List.mem_cons_of_mem _ hs')]
    cases s with
    | literal t => rfl
    | tag raw t => exact nomatch h _ List.mem_cons_self

theorem standsAlone_iff {k : TagKind} : k.standsAlone = true ↔
    k ∈ [TagKind.block false, .block true, .close, .comment, .inclusion, .delims] := by
  cases k with
  | block inverted => cases inverted <;> decide
  | var escaped => simp [TagKind.standsAlone]
  | close => decide
  | inclusion => decide
  | comment => decide
  | delims => decide

theorem all_isIdle_map_literal {ts : List Text} : (ts.map literal).all isIdle = true ↔
    ∀ c ∈ ts.flatten, c = ' ' ∨ c = '\t' ∨ c = '\r' ∨ c = '\n' := by
  have hblank : ∀ c, isLineBlank c = true ↔ c = ' ' ∨ c = '\t' ∨ c = '\r' ∨ c = '\n' := by
    intro c
    simp [isLineBlank, or_assoc]
  induction ts with
  | nil => simp
  | cons t ts ih =>
    have ht : isIdle (literal t) = true ↔ ∀ c ∈ t, c = ' ' ∨ c = '\t' ∨ c = '\r' ∨ c = '\n' := by
      simp only [isIdle, List.all_eq_true, hblank]
    rw [List.map_cons, List.all_cons, Bool.and_eq_true, List.flatten_cons]
    refine (and_congr ht ih).trans ?_
    simp only [List.mem_append, or_imp, forall_and]

theorem leadingText_append (pre post : List Text) (raw : Text) (t : Tag) :
    leadingText (pre.map literal ++ tag raw t :: post.map literal) = pre.flatten := by
  induction pre with
  | nil => rfl
  | cons p pre ih =>
    rw [leadingText, List.map_cons, List.cons_append, List.takeWhile_cons_of_pos rfl,
      List.flatMap_cons, List.flatten_cons]
    exact congrArg (p ++ ·) ih

theorem standalone?_append {pre post : List Text} {raw : Text} {t : Tag} :
    standalone? (pre.map literal ++ tag raw t :: post.map literal) = some t ↔
      (∀ c ∈ pre.flatten ++ post.flatten, c = ' ' ∨ c = '\t' ∨ c = '\r' ∨ c = '\n') ∧
        t.kind ∈ [.block false, .block true, .close, .comment, .inclusion, .delims] := by
  have hnone : ∀ ts : List Text, (ts.map literal).filterMap tag? = [] := fun ts =>
    List.filterMap_eq_nil_iff.2 fun s hs => by
      obtain ⟨_, -, rfl⟩ := List.mem_map.1 hs
      rfl
  have htags : (pre.map literal ++ tag raw t :: post.map literal).filterMap tag? = [t] := by
    rw [List.filterMap_append, List.filterMap_cons, hnone, hnone]
    rfl
  have hidle : (pre.map literal ++ tag raw t :: post.map literal).all isIdle = true ↔
      ∀ c ∈ pre.flatten ++ post.flatten, c = ' ' ∨ c = '\t' ∨ c = '\r' ∨ c = '\n' := by
    rw [List.all_append, List.all_cons, Bool.and_eq_true, Bool.and_eq_true,
      all_isIdle_map_literal, all_isIdle_map_literal]
    simp only [isIdle, true_and, List.mem_append, or_imp, forall_and]
  rw [standalone?, htags, ← hidle, ← standsAlone_iff]
  simp [and_comm]

theorem alone_iff {line : List Segment} {lead : Text} {t : Tag} :
    Alone line lead t ↔ standalone? line = some t ∧ leadingText line = lead := by
  constructor
  · rintro ⟨pre, post, raw, rfl, rfl, hblank, hkind⟩
    exact ⟨standalone?_append.2 ⟨hblank, hkind⟩, leadingText_append pre post raw t⟩
  · rintro ⟨hsome, rfl⟩
    have htags : line.filterMap tag? = [t] := by
      unfold standalone? at hsome
      split at hsome
      · next t' ht' =>
        split at hsome
        · rw [ht', Option.some.inj hsome]
        · cases hsome
      · cases hsome
    obtain ⟨pre, s, post, rfl, hpre, hs, hpost⟩ := List.filterMap_eq_cons_iff.1 htags
    obtain ⟨raw, rfl⟩ : ∃ raw, s = tag raw t := by
      cases s with
      | literal u => cases hs
      | tag raw t' =>
        cases hs
        exact ⟨raw, rfl⟩
    rw [eq_map_literal hpre, eq_map_literal (List.filterMap_eq_nil_iff.1 hpost)] at hsome ⊢
    exact ⟨_, _, raw, rfl, leadingText_append _ _ raw t, standalone?_append.1 hsome⟩

/-- a line that exists for one tag alone -/
def ForOneTag (line : List Segment) : Prop := ∃ lead t, Alone line lead t

theorem forOneTag_iff {line : List Segment} : ForOneTag line ↔ standalone? line ≠ none := by
  rw [Option.ne_none_iff_exists']
  constructor
  · rintro ⟨lead, t, halone⟩
    exact ⟨t, (alone_iff.1 halone).1⟩
  · rintro ⟨t, ht⟩
    exact ⟨leadingText line, t, alone_iff.2 ⟨ht, rfl⟩⟩

instance (line : List Segment) : Decidable (ForOneTag line) :=
  decidable_of_iff _ forOneTag_iff.symm

end Segment

/-- what is left of a line: the tag that has it for itself, or everything -/
inductive LineRule : List Segment → List Token → Prop where
  | alone {line : List Segment} {lead : Text} {t : Tag} :
      Segment.Alone line lead t → LineRule line [.tag t (if lead = [] then none else some lead)]
  | kept {line : List Segment} :
      ¬ Segment.ForOneTag line →
      LineRule line (line.map fun
        | .literal t => .text t
        | .tag _ t => .tag t none)

theorem lineRule_iff {line : List Segment} {ts : List Token} :
    LineRule line ts ↔ lineTokens line = ts := by
  have htoken : Segment.token = fun
      | .literal t => Token.text t
      | .tag _ t => Token.tag t none := by
    funext s
    cases s <;> rfl
  constructor
  · rintro (halone | hkept)
    · obtain ⟨hsome, hlead⟩ := Segment.alone_iff.1 halone
      rw [lineTokens, hsome, ← hlead]
      rfl
    · rw [Segment.forOneTag_iff, ne_eq, not_not] at hkept
      rw [lineTokens, hkept, ← htoken]
  · rintro rfl
    cases h : standalone? line with
    | some t =>
      have := LineRule.alone (Segment.alone_iff.2 ⟨h, rfl⟩)
      rwa [lineTokens, h]
    | none =>
      have hkept : ¬ Segment.ForOneTag line := fun hfor => Segment.forOneTag_iff.1 hfor h
      have := LineRule.kept hkept
      rwa [lineTokens, h, htoken]

/-- a tag among the tokens of a line is a tag of the line, with the text in front of it as its
indentation if it has the line for itself -/
theorem exists_of_tag_mem_lineTokens {line : List Segment} {t : Tag} {indent : Option Text}
    (h : .tag t indent ∈ lineTokens line) : (∃ raw, .tag raw t ∈ line) ∧
      ∀ lead ∈ indent, lead ≠ [] ∧ Segment.Alone line lead t := by
  have hrule := lineRule_iff.2 (rfl : lineTokens line = _)
  generalize lineTokens line = ts at h hrule
  cases hrule with
  | @alone lead t' halone =>
    obtain ⟨rfl, rfl⟩ := Token.tag.inj (List.mem_singleton.1 h)
    refine ⟨?_, fun i hi => ?_⟩
    · obtain ⟨pre, post, raw, rfl, -⟩ := halone
      exact ⟨raw, List.mem_append_right _ List.mem_cons_self⟩
    · split at hi
      · cases hi
      · next hlead =>
        cases hi
        exact ⟨hlead, halone⟩
  | kept hkept =>
    obtain ⟨s, hs, he⟩ := List.mem_map.1 h
    cases s with
    | literal u => cases he
    | tag raw t' =>
      cases he
      refine ⟨⟨raw, hs⟩, fun i hi => ?_⟩
      cases hi

theorem forall₂_lineRule_iff {lines : List (List Segment)} {groups : List (List Token)} :
    List.Forall₂ LineRule lines groups ↔ lines.map lineTokens = groups := by
  have hrule : LineRule = fun line ts => lineTokens line = ts :=
    funext₂ fun _ _ => propext lineRule_iff
  rw [hrule, ← List.forall₂_map_left_iff, List.forall₂_eq_eq_eq]

namespace Token

/-! ## one pass -/

theorem ofSegmentsFrom_eq_flatMap (line segs : List Segment) :
    ofSegmentsFrom line segs =
      match Segment.splitLines segs with
      | [] => lineTokens line.reverse
      | l :: ls => lineTokens (line.reverse ++ l) ++ ls.flatMap lineTokens := by
  induction segs generalizing line with
  | nil => rfl
  | cons s segs ih =>
    rw [ofSegmentsFrom, Segment.splitLines]
    split
    · rw [ih, List.reverse_cons]
      cases Segment.splitLines segs with
      | nil => rfl
      | cons l ls => rfl
    · rw [ih, List.reverse_cons]
      cases Segment.splitLines segs with
      | nil => exact (List.append_nil _).symm
      | cons l ls =>
        show lineTokens (line.reverse ++ [s] ++ l) ++ _ = lineTokens (line.reverse ++ s :: l) ++ _
        rw [List.append_assoc, List.singleton_append]

/-- the tokens made in one pass are those of one line after the other -/
theorem ofSegments_eq_flatMap (segs : List Segment) :
    ofSegments segs = (Segment.splitLines segs).flatMap lineTokens := by
  rw [ofSegments, ofSegmentsFrom_eq_flatMap]
  cases Segment.splitLines segs <;> rfl

/-! ## nothing is lost -/

/-- the literal text of a token -/
def literalText : Token → Text
  | text t => t
  | tag _ _ => []

theorem flatMap_literalText_lineTokens (line : List Segment) :
    (lineTokens line).flatMap literalText =
      if Segment.ForOneTag line then [] else line.flatMap Segment.literalText := by
  have hline := lineRule_iff.2 (rfl : lineTokens line = _)
  generalize lineTokens line = ts at hline
  rcases hline with halone | hkept
  · have hfor : Segment.ForOneTag line := ⟨_, _, halone⟩
    rw [if_pos hfor]
    rfl
  · rw [if_neg hkept, List.flatMap_map]
    congr 1
    funext s
    cases s <;> rfl

theorem flatMap_literalText_lines (lines : List (List Segment)) :
    (lines.flatMap lineTokens).flatMap literalText =
      (lines.filter fun line => ¬ Segment.ForOneTag line).flatten.flatMap
        Segment.literalText := by
  induction lines with
  | nil => rfl
  | cons line lines ih =>
    rw [List.flatMap_cons, List.flatMap_append, ih, flatMap_literalText_lineTokens,
      List.filter_cons]
    by_cases hfor : Segment.ForOneTag line
    · simp [hfor]
    · simp [hfor]

/-- **Tokens are made line by line.**  A text has tokens exactly when it can be scanned.  The
segments then make up the text, each tag at its offset; they are cut into lines where literal text
has a line feed; and the tokens are what the rule leaves of one line after the other, so that the
literal text of all lines but those of one tag is there, once and in order. -/
theorem ofText_eq_ok_iff {source : Text} {tokens : List Token} :
    ofText source = .ok tokens ↔
      ∃ (segs : List Segment) (lines : List (List Segment)) (groups : List (List Token)),
        Segment.scan .braces 0 source = .ok segs ∧
        segs.flatMap Segment.text = source ∧
        (∀ pre raw t post, segs = pre ++ .tag raw t :: post →
          t.offset = (pre.flatMap Segment.text).length) ∧
        Segment.CutIntoLines segs lines ∧
        List.Forall₂ LineRule lines groups ∧
        tokens = groups.flatten ∧
        tokens.flatMap literalText =
          (lines.filter fun line => ¬ Segment.ForOneTag line).flatten.flatMap
            Segment.literalText := by
  constructor
  · intro htext
    rw [ofText] at htext
    split at htext
    · cases htext
    · next segs hscan =>
      cases htext
      refine ⟨segs, Segment.splitLines segs, (Segment.splitLines segs).map lineTokens, hscan,
        Segment.flatMap_text_scan hscan, ?_,
        Segment.cutIntoLines_splitLines (Segment.onOneLine_of_scan hscan),
        forall₂_lineRule_iff.2 rfl, ?_, ?_⟩
      · intro pre raw t post hsegs
        rw [Segment.offset_of_scan hscan hsegs, Nat.zero_add]
      · rw [ofSegments_eq_flatMap, List.flatMap_def]
      · rw [ofSegments_eq_flatMap, flatMap_literalText_lines]
  · rintro ⟨segs, lines, groups, hscan, -, -, hcut, hrule, rfl, -⟩
    rw [ofText, hscan]
    show Except.ok (ofSegments segs) = _
    rw [ofSegments_eq_flatMap, Segment.splitLines_of_cutIntoLines hcut, List.flatMap_def,
      forall₂_lineRule_iff.1 hrule]

-- the line feed inside the comment ends no line, so the blanks in front of it go with it
example : ofText " \x7b\x7b!a\nb\x7d\x7d\nc \x7b\x7bd\x7d\x7d\n".toList = .ok
    [.tag ⟨.comment, "a\nb".toList, 1⟩ (some [' ']), .text ['c', ' '],
      .tag ⟨.var true, ['d'], 12⟩ none, .text ['\n']] := by
  cbv

end Token
end Mustache
