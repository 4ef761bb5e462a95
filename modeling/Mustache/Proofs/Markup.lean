import Mathlib.Data.List.Basic
import Mustache.PartialTable
import Mustache.Proofs.Simulation

/-!
# No markup from the data

In the text of an escaped variable no character of the data has a meaning in HTML.  The lines of
such a text may then be indented, and the texts of many variables be put together with those of the
templates: still all markup of the output is markup of the templates.

* `Text.OnlyEntities`   every ampersand of a text begins an entity
* `Persistent`          a property of texts that escaped texts have, and that is kept when texts are
                        put together and when a text is cut into lines
* `Occurs`              the nodes of a tree and of the templates it may include
* `render_persistent`   such a property, if the templates have it, is one of the output
* `render_escaped`      the two properties of escaped output
-/

namespace Mustache

/-! ## escaped text -/

namespace Text

/-- a character is written as its entity, or as it is -/
theorem escapeChar_cases (c : Char) :
    (c, escapeChar c) ∈ entities ∨ (c ∉ entities.map Prod.fst ∧ escapeChar c = [c]) := by
  rw [escapeChar]
  cases h : entities.lookup c with
  | some w =>
    obtain ⟨before, after, hsplit, -⟩ := List.lookup_eq_some_iff.1 h
    exact .inl (by simp [hsplit])
  | none =>
    refine .inr ⟨fun hmem => ?_, rfl⟩
    obtain ⟨e, he, rfl⟩ := List.mem_map.1 hmem
    simpa using List.lookup_eq_none_iff.1 h e he

/-- the ampersand is the only escaped character in the entities -/
theorem notMem_entity {x : Char} (hx : x ∈ entities.map Prod.fst) (hne : x ≠ '&')
    {e : Char × Text} (he : e ∈ entities) : x ∉ e.2 := by
  have hall : (entities.map Prod.fst).all
      (fun x => x == '&' || entities.all fun e => !e.2.contains x) = true := by decide
  have hothers := List.all_eq_true.1 hall x hx
  rw [Bool.or_eq_true, beq_iff_eq, List.all_eq_true] at hothers
  simpa using hothers.resolve_left hne e he

theorem notMem_escape {x : Char} (hx : x ∈ entities.map Prod.fst) (hne : x ≠ '&') (s : Text) :
    x ∉ escape s := by
  intro hmem
  obtain ⟨c, -, hc⟩ := List.mem_flatMap.1 hmem
  rcases escapeChar_cases c with he | ⟨hplain, hesc⟩
  · exact notMem_entity hx hne he hc
  · rw [hesc] at hc
    exact hplain (List.mem_singleton.1 hc ▸ hx)

/-! ## ampersands -/

/-- every ampersand is the first character of an entity -/
def OnlyEntities (s : Text) : Prop :=
  ∀ before after, s = before ++ '&' :: after → ∃ e ∈ entities, e.2 <+: '&' :: after

theorem onlyEntities_of_notMem {s : Text} (h : '&' ∉ s) : OnlyEntities s := by
  rintro before after rfl
  exact absurd (List.mem_append_right _ List.mem_cons_self) h

theorem onlyEntities_entity {e : Char × Text} (he : e ∈ entities) : OnlyEntities e.2 := by
  have htail : ∀ e ∈ entities, '&' ∉ e.2.tail := by decide
  intro before after hsplit
  cases before with
  | nil =>
    have hsplit : e.2 = '&' :: after := hsplit
    exact ⟨e, he, hsplit ▸ List.prefix_refl _⟩
  | cons c before =>
    have hnot := htail e he
    rw [hsplit] at hnot
    exact absurd (List.mem_append_right before List.mem_cons_self) hnot

theorem OnlyEntities.append {s t : Text} (hs : OnlyEntities s) (ht : OnlyEntities t) :
    OnlyEntities (s ++ t) := by
  intro before after h
  rcases List.append_eq_append_iff.1 h with ⟨mid, -, rfl⟩ | ⟨mid, rfl, hmid⟩
  · exact ht mid after rfl
  · cases mid with
    | nil => exact ht [] after hmid.symm
    | cons c mid =>
      obtain ⟨rfl, rfl⟩ := List.cons.inj hmid
      obtain ⟨e, he, hpre⟩ := hs before mid rfl
      exact ⟨e, he, hpre.trans (List.prefix_append _ t)⟩

theorem onlyEntities_escape (s : Text) : OnlyEntities (escape s) := by
  induction s with
  | nil => exact onlyEntities_of_notMem List.not_mem_nil
  | cons c s ih =>
    rw [escape_cons]
    refine OnlyEntities.append ?_ ih
    rcases escapeChar_cases c with he | ⟨hplain, hesc⟩
    · exact onlyEntities_entity he
    · rw [hesc]
      refine onlyEntities_of_notMem fun hmem => hplain ?_
      rw [← List.mem_singleton.1 hmem]
      decide

/-! ## lines -/

/-- a beginning of a text that has no line feed lies in its first line -/
theorem prefix_headD_lines {w s : Text} (hw : w <+: s) (hfeed : '\n' ∉ w) :
    w <+: (lines s).headD [] := by
  induction s generalizing w with
  | nil => exact hw
  | cons c s ih =>
    cases w with
    | nil => exact List.nil_prefix
    | cons d w =>
      obtain ⟨rfl, hws⟩ := List.cons_prefix_cons.1 hw
      rw [List.mem_cons, not_or] at hfeed
      rw [lines_cons_of_ne (Ne.symm hfeed.1)]
      exact List.cons_prefix_cons.2 ⟨rfl, ih hws hfeed.2⟩

theorem OnlyEntities.tail {c : Char} {s : Text} (h : OnlyEntities (c :: s)) : OnlyEntities s :=
  fun before after hsplit => h (c :: before) after (congrArg (c :: ·) hsplit)

/-- no entity is cut when a text is cut into lines -/
theorem OnlyEntities.of_mem_lines {s l : Text} (h : OnlyEntities s) (hl : l ∈ lines s) :
    OnlyEntities l := by
  have hfeed : ∀ e ∈ entities, '\n' ∉ e.2 := by decide
  induction s generalizing l with
  | nil => cases hl
  | cons c s ih =>
    have hrest : ∀ l ∈ lines s, OnlyEntities l := fun l hmem => ih h.tail hmem
    by_cases hc : c = '\n'
    · rw [hc, lines_newline] at hl
      rcases List.mem_cons.1 hl with rfl | hl
      · exact onlyEntities_of_notMem (by decide)
      · exact hrest l hl
    · rw [lines_cons_of_ne hc] at hl
      rcases List.mem_cons.1 hl with rfl | hl
      · intro before after hsplit
        cases before with
        | nil =>
          -- the entity lies in the first line, since it has no line feed
          obtain ⟨rfl, hfirst⟩ := List.cons.inj hsplit
          obtain ⟨e, he, hpre⟩ := h [] s rfl
          have hline := prefix_headD_lines hpre (hfeed e he)
          rw [lines_cons_of_ne hc, List.headD_cons, hfirst] at hline
          exact ⟨e, he, hline⟩
        | cons d before =>
          have hfirst : OnlyEntities ((lines s).headD []) := by
            cases hlines : lines s with
            | nil => exact onlyEntities_of_notMem List.not_mem_nil
            | cons first others => exact hrest first (hlines ▸ List.mem_cons_self)
          exact hfirst before after (List.cons.inj hsplit).2
      · exact hrest l (List.mem_of_mem_tail hl)

end Text

/-! ## properties of the output -/


/-- a property of texts that escaped texts have, and that is kept when texts are put together and
when a text is cut into lines -/
structure Persistent (P : Text → Prop) : Prop where
  nil : P []
  append {s t : Text} : P s → P t → P (s ++ t)
  escape (s : Text) : P (Text.escape s)
  line {s l : Text} : P s → l ∈ Text.lines s → P l

theorem persistent_notMem {x : Char} (hx : x ∈ Text.entities.map Prod.fst) (hne : x ≠ '&') :
    Persistent (fun s => x ∉ s) := by
  constructor
  case nil => exact List.not_mem_nil
  case append => exact fun hs ht h => (List.mem_append.1 h).elim hs ht
  case escape => exact Text.notMem_escape hx hne
  case line =>
    intro s l hs hl h
    rw [← Text.flatten_lines s] at hs
    exact hs (List.mem_flatten.2 ⟨l, hl, h⟩)

theorem persistent_onlyEntities : Persistent Text.OnlyEntities where
  nil := Text.onlyEntities_of_notMem List.not_mem_nil
  append := Text.OnlyEntities.append
  escape := Text.onlyEntities_escape
  line := Text.OnlyEntities.of_mem_lines

namespace Persistent
variable {P : Text → Prop}

theorem flatten (hP : Persistent P) {pieces : List Text} (h : ∀ s ∈ pieces, P s) :
    P pieces.flatten := by
  induction pieces with
  | nil => exact hP.nil
  | cons s pieces ih =>
    rw [List.forall_mem_cons] at h
    exact hP.append h.1 (ih h.2)

theorem indentLines (hP : Persistent P) {s indent : Text} (hs : P s) (hindent : P indent) :
    P (Text.indentLines s indent) := by
  rw [Text.indentLines, List.flatMap_def]
  refine hP.flatten fun line hline => ?_
  obtain ⟨l, hl, rfl⟩ := List.mem_map.1 hline
  exact hP.append hindent (hP.line hs hl)

end Persistent

namespace Rendering

/-- if what is on the canvas has the property, what the step leaves there has it too -/
def Keeps (P : Text → Prop) (a : Rendering) : Prop :=
  Related (fun c o _ => P c.text → P o.1.text) a a

variable {P : Text → Prop} {a : Rendering}

theorem compatible_keeps (P : Text → Prop) :
    Compatible (fun c o _ => P c.text → P o.1.text) := by
  constructor
  case done => exact fun c h => h
  case andThen =>
    intro a a' b b' ha hb c h
    have hac := ha c h
    rcases hc : a c with ⟨c', _ | name⟩
    · rw [hc] at hac
      rw [andThen_of_ok hc]
      exact hb c' hac
    · rw [hc] at hac
      rw [andThen_of_fail hc]
      exact hac
  case within => exact fun v ha c h => ha { c with frames := c.frames.push v } h

theorem keeps_done : done.Keeps P := fun _ h => h

theorem keeps_write (hP : Persistent P) {t : Text} (ht : P t) : (write t).Keeps P := by
  intro c h
  show P (c.write t).text
  rw [Canvas.text_write]
  exact hP.append h ht

theorem keeps_var (hP : Persistent P) (name : Name) : (var name true).Keeps P := by
  intro c h
  rw [var]
  split
  · exact h
  · next v _ => exact keeps_write hP (hP.escape v.text) c h

/-- the canvas apart starts empty, and its lines are written behind those that are there -/
theorem Keeps.indented (hP : Persistent P) (h : a.Keeps P) {indent : Text} (hindent : P indent) :
    (Rendering.indented indent a).Keeps P := by
  intro c hc
  have hapart := h { c with pieces := [] } hP.nil
  rcases ha : a { c with pieces := [] } with ⟨c', _ | name⟩
  · rw [ha] at hapart
    rw [indented_of_ok ha]
    exact keeps_write hP (hP.indentLines hapart hindent) c hc
  · rw [indented_of_fail ha]
    exact hc

end Rendering

/-! ## templates -/

/-- what a node writes by itself: literal text, or the indentation of an inclusion -/
def Node.own : Node → Text
  | .text t => t
  | .var _ _ => []
  | .block _ _ _ => []
  | .inclusion _ indent => indent.getD []

/-- no variable, or an escaped one -/
def Node.isEscaped : Node → Bool
  | .text _ => true
  | .var _ escaped => escaped
  | .block _ _ _ => true
  | .inclusion _ _ => true

/-- a node of the tree or of a template, at any level -/
def Occurs (partials : Partials) (t : Tree) (n : Node) : Prop :=
  n ∈ t.nodes ∨ ∃ name u, partials name = some u ∧ n ∈ u.nodes

section
variable {P : Text → Prop} {partials : Partials} {t : Tree}

theorem Tree.render_keeps (hP : Persistent P)
    (hescaped : ∀ n, Occurs partials t n → n.isEscaped = true)
    (hown : ∀ n, Occurs partials t n → P n.own) {incl : Text → Option Text → Rendering}
    (hincl : ∀ name indent, Occurs partials t (.inclusion name indent) →
      (incl name indent).Keeps P) {u : Tree} (hu : ∀ n ∈ u.nodes, Occurs partials t n) :
    (Tree.render incl u).Keeps P := by
  refine render_related (Rendering.compatible_keeps P) (fun s hs => ?_)
    (fun name escaped hvar => ?_) hincl hu
  · exact Rendering.keeps_write hP (hown _ hs)
  · obtain rfl : escaped = true := hescaped _ hvar
    exact Rendering.keeps_var hP name

theorem inclusion_keeps (hP : Persistent P)
    (hescaped : ∀ n, Occurs partials t n → n.isEscaped = true)
    (hown : ∀ n, Occurs partials t n → P n.own) (levels : Nat) (name : Text)
    (indent : Option Text) (hocc : Occurs partials t (.inclusion name indent)) :
    (inclusion partials levels name indent).Keeps P := by
  refine inclusion_induct (R := fun _ name indent a =>
    Occurs partials t (.inclusion name indent) → a.Keeps P) ?unknown ?tooDeep ?plain ?indented
    levels name indent hocc
  case unknown => exact fun _ _ _ _ _ => Rendering.keeps_done
  case tooDeep => exact fun _ _ _ _ _ _ h => h
  case plain =>
    intro levels name u hu ih _
    exact Tree.render_keeps hP hescaped hown ih fun n hn => .inr ⟨name, u, hu, hn⟩
  case indented =>
    intro levels name i u hu ih hocc
    have hu : (Tree.render (inclusion partials levels) u).Keeps P :=
      Tree.render_keeps hP hescaped hown ih fun n hn => .inr ⟨name, u, hu, hn⟩
    exact hu.indented hP (hown _ hocc)

/-- a property that the templates have is one of the output -/
theorem render_persistent (hP : Persistent P)
    (hescaped : ∀ n, Occurs partials t n → n.isEscaped = true)
    (hown : ∀ n, Occurs partials t n → P n.own) {maxDepth : Nat} {data : Value} {out : Text}
    (h : render partials maxDepth t data = .ok out) : P out := by
  have hkeeps : (Tree.render (inclusion partials maxDepth) t).Keeps P :=
    Tree.render_keeps hP hescaped hown (inclusion_keeps hP hescaped hown maxDepth)
      fun n hn => .inl hn
  obtain ⟨c, hc, rfl⟩ := render_eq_ok_iff.1 h
  have hout := hkeeps (.ofData data) hP.nil
  rw [hc] at hout
  exact hout

/-- **Escaped output has no markup from the data.**  If all variables are escaped, a character with
a meaning in HTML that no template writes is not in the output; and if no template writes an
ampersand, each one in the output begins an entity. -/
theorem render_escaped (hescaped : ∀ n, Occurs partials t n → n.isEscaped = true)
    {maxDepth : Nat} {data : Value} {out : Text}
    (h : render partials maxDepth t data = .ok out) :
    (∀ x ∈ ['<', '>', '"', '\'', '/', '\x60', '='],
      (∀ n, Occurs partials t n → x ∉ n.own) → x ∉ out) ∧
    ((∀ n, Occurs partials t n → '&' ∉ n.own) →
      ∀ before after, out = before ++ '&' :: after →
        ∃ e ∈ Text.entities, e.2 <+: '&' :: after) := by
  constructor
  · intro x hx hown
    have hmarkup : ['<', '>', '"', '\'', '/', '\x60', '='] =
        (Text.entities.map Prod.fst).filter (· ≠ '&') := by decide
    rw [hmarkup, List.mem_filter, decide_eq_true_eq] at hx
    exact render_persistent (persistent_notMem hx.1 hx.2) hescaped hown h
  · intro hown
    exact render_persistent persistent_onlyEntities hescaped
      (fun n hn => Text.onlyEntities_of_notMem (hown n hn)) h

end

/-- an indented item of a list -/
def items : PartialTable :=
  ⟨[⟨"item".toList, "<li>{{.}}</li>\n".toList,
    [.text "<li>".toList, .var .implicit true, .text "</li>\n".toList]⟩]⟩

def itemList : Tree :=
  [.text "<ul>\n".toList, .inclusion "item".toList (some [' ', ' ']), .text "</ul>\n".toList]

-- the data has an ampersand, quotes and a tag, and a line feed at which it is indented
theorem render_escaped_item : ∃ out,
    render items.tree? 1 itemList (.string "a & b\n\"<x>\"".toList) = .ok out ∧
    out = "<ul>\n  <li>a &amp; b\n  &quot;&lt;x&gt;&quot;</li>\n</ul>\n".toList ∧
    (∀ n, Occurs items.tree? itemList n → n.isEscaped = true ∧ '"' ∉ n.own ∧ '&' ∉ n.own) ∧
    '"' ∉ out ∧ ∀ before after, out = before ++ '&' :: after →
      ∃ e ∈ Text.entities, e.2 <+: '&' :: after := by
  have htree : ∀ n ∈ itemList.nodes, n.isEscaped = true ∧ '"' ∉ n.own ∧ '&' ∉ n.own := by decide
  have htable : ∀ p ∈ items.partials, ∀ n ∈ p.tree.nodes,
      n.isEscaped = true ∧ '"' ∉ n.own ∧ '&' ∉ n.own := by decide
  have hall : ∀ n, Occurs items.tree? itemList n →
      n.isEscaped = true ∧ '"' ∉ n.own ∧ '&' ∉ n.own := by
    rintro n (hn | ⟨name, u, hu, hn⟩)
    · exact htree n hn
    · obtain ⟨p, hp, -, rfl⟩ := PartialTable.exists_of_tree?_eq_some hu
      exact htable p hp n hn
  have hout : render items.tree? 1 itemList (.string "a & b\n\"<x>\"".toList) =
      .ok "<ul>\n  <li>a &amp; b\n  &quot;&lt;x&gt;&quot;</li>\n</ul>\n".toList := by rfl
  obtain ⟨hmarkup, hentities⟩ := render_escaped (fun n hn => (hall n hn).1) hout
  exact ⟨_, hout, rfl, hall, hmarkup '"' (by decide) fun n hn => (hall n hn).2.1,
    hentities fun n hn => (hall n hn).2.2⟩

end Mustache
