import Mustache.Proofs.Printing
import Mustache.Proofs.Relocation

/-!
# Parsing what was printed

A well-formed tree is printed under any pair of delimiters, behind the line that puts the pair in
force.  Parsing the text gives the tree.

* `Tree.Printable`        the trees this holds for
* `Piece.segments_add`    the segments of a text that is printed further to the right
* `Tree.cutTexts`         the nodes before their texts are joined
* `Nest.run_segments`     nesting the tokens of a printed tree
* `parse_header_print`    parsing undoes printing
-/

namespace Mustache

/-! ## printable trees -/

mutual

def Node.depth : Node → Nat
  | .text _ => 0
  | .var _ _ => 0
  | .block _ _ children => Tree.depth children + 1
  | .inclusion _ _ => 0

def Tree.depth : Tree → Nat
  | [] => 0
  | n :: ns => max n.depth (Tree.depth ns)

end

theorem Tree.depth_cons_le {k m : Nat} {n : Node} {ns : Tree} (h : k + depth (n :: ns) ≤ m) :
    k + n.depth ≤ m ∧ k + depth ns ≤ m := by
  rw [depth] at h
  omega

/-- A well-formed tree that is not nested too deeply.  No line of its text looks as if it were
there for its one tag alone, unless the tag is all there is on the line. -/
structure Tree.Printable (d : Delims) (tree : Tree) : Prop where
  wellFormed : tree.WellFormed d
  depth_le : tree.depth ≤ 512
  lines : ∀ line ∈ Segment.splitLines (tree.segments d),
    Segment.ForOneTag line → line.flatMap Segment.literalText = []

instance (d : Delims) (tree : Tree) : Decidable (tree.Printable d) :=
  decidable_of_iff (tree.WellFormed d ∧ tree.depth ≤ 512 ∧
      ∀ line ∈ Segment.splitLines (tree.segments d),
        Segment.ForOneTag line → line.flatMap Segment.literalText = [])
    ⟨fun h => ⟨h.1, h.2.1, h.2.2⟩, fun h => ⟨h.wellFormed, h.depth_le, h.lines⟩⟩

/-! ## the printed lines -/

namespace Segment

theorem eq_nil_of_flatMap_eq_nil {ts : List Text} (hne : literal [] ∉ ts.map literal)
    (h : (ts.map literal).flatMap literalText = []) : ts = [] := by
  cases ts with
  | nil => rfl
  | cons t ts =>
    rw [List.map_cons, List.flatMap_cons] at h
    obtain rfl : t = [] := (List.append_eq_nil_iff.1 h).1
    exact absurd List.mem_cons_self hne

/-- a line is kept if it is no line of one tag, and if nothing but the tag is on it -/
theorem lineTokens_eq_map {line : List Segment} (hne : literal [] ∉ line)
    (h : ForOneTag line → line.flatMap literalText = []) : lineTokens line = line.map token := by
  by_cases hfor : ForOneTag line
  · have htext := h hfor
    obtain ⟨lead, t, halone⟩ := hfor
    have hsome := (alone_iff.1 halone).1
    obtain ⟨pre, post, raw, rfl, -⟩ := halone
    rw [List.flatMap_append, List.append_eq_nil_iff, List.flatMap_cons,
      List.append_eq_nil_iff] at htext
    rw [List.mem_append, List.mem_cons, not_or, not_or] at hne
    obtain rfl := eq_nil_of_flatMap_eq_nil hne.1 htext.1
    obtain rfl := eq_nil_of_flatMap_eq_nil hne.2.2 htext.2.2
    rw [lineTokens, hsome]
    rfl
  · rw [forOneTag_iff, ne_eq, not_not] at hfor
    rw [lineTokens, hfor]

end Segment

theorem Piece.segments_add (d : Delims) (k offset : Nat) (ps : List Piece) :
    segments d (offset + k) ps = (segments d offset ps).map (Segment.move id (· + k)) := by
  induction ps generalizing offset with
  | nil => rfl
  | cons p ps ih =>
    have hp : p.segmentsAt d (offset + k) =
        (p.segmentsAt d offset).map (Segment.move id (· + k)) := by
      cases p with
      | text t => exact (Segment.map_move_id_literals _ t).symm
      | tag kind content => rw [segmentsAt, segmentsAt, List.map_singleton, Segment.move_id_tag]
    rw [segments, segments, List.map_append, hp, ← ih, Nat.add_right_comm]

theorem Piece.literal_nil_notMem_segments (d : Delims) (offset : Nat) (ps : List Piece) :
    .literal [] ∉ segments d offset ps := by
  induction ps generalizing offset with
  | nil => exact List.not_mem_nil
  | cons p ps ih =>
    rw [segments, List.mem_append, not_or]
    refine ⟨?_, ih _⟩
    cases p with
    | text t =>
      intro hmem
      obtain ⟨l, hl, he⟩ := List.mem_map.1 hmem
      cases he
      exact Text.nil_notMem_lines t hl
    | tag kind content => simp [segmentsAt]

/-- nothing is lost when the segments of a printable tree become tokens -/
theorem Tree.Printable.flatMap_lineTokens {d : Delims} {tree : Tree} (h : tree.Printable d)
    (k : Nat) : (Segment.splitLines (Piece.segments d k tree.pieces)).flatMap lineTokens =
      (Piece.segments d k tree.pieces).map Segment.token := by
  have hkept : ∀ line ∈ Segment.splitLines (Piece.segments d k tree.pieces),
      lineTokens line = line.map Segment.token := by
    intro line hline
    refine Segment.lineTokens_eq_map (fun hnil => ?_) fun hfor => ?_
    · refine Piece.literal_nil_notMem_segments d k tree.pieces ?_
      rw [← Segment.flatten_splitLines (Piece.segments d k tree.pieces)]
      exact List.mem_flatten_of_mem hline hnil
    · rw [← Nat.zero_add k, Piece.segments_add, Segment.splitLines_move .id] at hline
      obtain ⟨l, hl, rfl⟩ := List.mem_map.1 hline
      rw [List.flatMap_map, funext (Segment.literalText_move .id)]
      exact h.lines l hl ((Segment.forOneTag_map_move_iff .id).1 hfor)
  rw [List.flatMap_congr hkept, List.flatMap_def, ← List.map_flatten, Segment.flatten_splitLines]

/-- the tokens of the header and of the printed tree -/
theorem Token.ofText_header_print {d : Delims} {tree : Tree} (h : tree.Printable d) :
    ofText (d.header ++ tree.print d) =
      .ok (.tag ⟨.delims, d.content, 0⟩ none ::
        (Piece.segments d d.header.length tree.pieces).map Segment.token) := by
  rw [ofText, Segment.scan_header_print h.wellFormed]
  show Except.ok (ofSegments _) = _
  rw [ofSegments_eq_flatMap, ← h.flatMap_lineTokens]
  rfl

/-! ## nesting -/

namespace Tree

/-- the nodes of a tree with every text cut into its lines -/
def cutTexts : Tree → List Node
  | [] => []
  | .text t :: ns => (Text.lines t).map .text ++ cutTexts ns
  | n :: ns => n :: cutTexts ns

theorem reverse_cutTexts_cons {n : Node} (hn : n.isText = false) (ns : Tree)
    (nodes : List Node) :
    (cutTexts (n :: ns)).reverse ++ nodes = (cutTexts ns).reverse ++ n :: nodes := by
  have hcut : cutTexts (n :: ns) = n :: cutTexts ns := by
    cases n with
    | text t => cases hn
    | var name escaped => rfl
    | block name inverted children => rfl
    | inclusion name indent => rfl
  rw [hcut, List.reverse_cons, List.append_assoc, List.singleton_append]

theorem foldr_cons_map_text (ls : List Text) (ns : Tree) :
    (ls.map Node.text).foldr cons ns = cons (.text ls.flatten) ns := by
  induction ls with
  | nil => rfl
  | cons l ls ih => rw [List.map_cons, List.foldr_cons, ih, cons_text_cons_text, List.flatten_cons]

/-- joining gives the texts back -/
theorem foldr_cons_cutTexts {d : Delims} {tree : Tree} (h : tree.WellFormed d) :
    tree.cutTexts.foldr cons [] = tree := by
  induction tree using Tree.induct with
  | nil => rfl
  | text t ns ih =>
    obtain ⟨⟨ht, -⟩, hns, hne⟩ := h
    rw [cutTexts, List.foldr_append, ih hns, foldr_cons_map_text, Text.flatten_lines, cons,
      if_neg ht]
    rintro u rest rfl
    cases hne rfl (.text u) rfl
  | var name escaped ns ih => exact congrArg (cons (.var name escaped)) (ih h.2.1)
  | block name inverted children ns ihc ih =>
    exact congrArg (cons (.block name inverted children)) (ih h.2.1)
  | inclusion name indent ns ih => exact congrArg (cons (.inclusion name indent)) (ih h.2.1)

theorem ofReversed_cutTexts {d : Delims} {tree : Tree} (h : tree.WellFormed d) :
    ofReversed tree.cutTexts.reverse = tree := by
  rw [ofReversed_eq_foldr, List.reverse_reverse, foldr_cons_cutTexts h]

end Tree

namespace Nest

theorem run_texts (b : Nest) (ls : List Text) :
    b.run (ls.map Token.text) = .ok ⟨b.stack, (ls.map Node.text).reverse ++ b.current⟩ := by
  induction ls generalizing b with
  | nil => rfl
  | cons l ls ih =>
    show (b.add (.text l)).run (ls.map Token.text) = _
    rw [ih, List.map_cons, List.reverse_cons, List.append_assoc]
    rfl

/-- the tokens of a printed block: its children stand between its two tags -/
theorem map_token_segments_block (d : Delims) (offset : Nat) (name : Name) (inverted : Bool)
    (children ns : Tree) : ∃ o₁ o₂ o₃,
      (Piece.segments d offset (Tree.pieces (.block name inverted children :: ns))).map
        Segment.token =
      .tag ⟨.block inverted, name.toText, offset⟩ none ::
        ((Piece.segments d o₁ children.pieces).map Segment.token ++
          .tag ⟨.close, name.toText, o₂⟩ none ::
            (Piece.segments d o₃ ns.pieces).map Segment.token) := by
  rw [Tree.pieces, Node.pieces, List.cons_append, List.append_assoc, Piece.segments,
    Piece.segments_append, List.map_append, List.map_append]
  exact ⟨_, _, _, rfl⟩

/-- nesting the tokens of a printed tree puts its nodes on top -/
theorem run_segments {d : Delims} {tree : Tree} (h : tree.WellFormed d) (b : Nest)
    (hdepth : b.stack.length + tree.depth ≤ maxNesting) (offset : Nat) :
    b.run ((Piece.segments d offset tree.pieces).map Segment.token) =
      .ok ⟨b.stack, tree.cutTexts.reverse ++ b.current⟩ := by
  induction tree using Tree.induct generalizing b offset with
  | nil => rfl
  | text t ns ih =>
    obtain ⟨-, hns⟩ := Tree.depth_cons_le hdepth
    have hlines : (Segment.literals t).map Segment.token = (Text.lines t).map Token.text := by
      rw [Segment.literals, List.map_map]
      rfl
    have hrun := ih h.2.1 ⟨b.stack, ((Text.lines t).map Node.text).reverse ++ b.current⟩ hns
    show b.run ((Segment.literals t ++ Piece.segments d _ (Tree.pieces ns)).map Segment.token) = _
    rw [List.map_append, hlines, run_append, run_texts]
    show Nest.run ⟨b.stack, _⟩ _ = _
    rw [hrun, Tree.cutTexts, List.reverse_append, List.append_assoc]
  | var name escaped ns ih =>
    obtain ⟨-, hns⟩ := Tree.depth_cons_le hdepth
    have hrun := ih h.2.1 (b.add (.var name escaped)) hns
    have hstep : b.step (.tag ⟨.var escaped, name.toText, offset⟩ none) =
        .ok (b.add (.var name escaped)) := by
      show Except.ok (b.add (.var (Name.ofText name.toText) escaped)) = _
      rw [Name.written_iff.1 h.1.2.1]
    show b.run (.tag ⟨.var escaped, name.toText, offset⟩ none ::
      (Piece.segments d _ (Tree.pieces ns)).map Segment.token) = _
    rw [run_cons hstep, hrun, Tree.reverse_cutTexts_cons (n := .var name escaped) rfl]
    rfl
  | block name inverted children ns ihc ih =>
    obtain ⟨hblock, hns⟩ := Tree.depth_cons_le hdepth
    have hchildren : b.stack.length + 1 + Tree.depth children ≤ maxNesting := by
      rw [Node.depth] at hblock
      omega
    obtain ⟨o₁, o₂, o₃, htokens⟩ := map_token_segments_block d offset name inverted children ns
    have hopen := step_block (b := b) (by omega) name.toText inverted offset none
    have hinner := ihc h.1.2.2 ⟨⟨name.toText, inverted, offset, b.current⟩ :: b.stack, []⟩
      hchildren o₁
    have hclose := step_close ⟨name.toText, inverted, offset, b.current⟩ b.stack
      (Tree.cutTexts children).reverse o₂ none
    have hrun := ih h.2.1 ⟨b.stack, .block name inverted children :: b.current⟩ hns o₃
    rw [Tree.ofReversed_cutTexts h.1.2.2, Name.written_iff.1 h.1.2.1] at hclose
    rw [htokens, run_cons hopen, run_append, hinner, List.append_nil]
    show Nest.run _ (_ :: _) = _
    rw [run_cons hclose, hrun,
      Tree.reverse_cutTexts_cons (n := .block name inverted children) rfl]
  | inclusion name indent ns ih =>
    obtain ⟨-, hns⟩ := Tree.depth_cons_le hdepth
    obtain ⟨⟨-, rfl⟩, hwf, -⟩ := h
    have hrun := ih hwf (b.add (.inclusion name none)) hns
    show b.run (.tag ⟨.inclusion, name, offset⟩ none ::
      (Piece.segments d _ (Tree.pieces ns)).map Segment.token) = _
    rw [run_cons rfl, hrun, Tree.reverse_cutTexts_cons (n := .inclusion name none) rfl]
    rfl

end Nest

/-- **Parsing undoes printing.**  Under any pair of delimiters, behind the line that puts the pair
in force, a printable tree is parsed from its text. -/
theorem parse_header_print {d : Delims} {tree : Tree} (h : tree.Printable d) :
    parse (d.header ++ tree.print d) = .ok tree := by
  have hdepth : Nest.empty.stack.length + tree.depth ≤ maxNesting := by
    have := h.depth_le
    show 0 + tree.depth ≤ 512
    omega
  have hnodes : Tree.ofTokens (.tag ⟨.delims, d.content, 0⟩ none ::
      (Piece.segments d d.header.length tree.pieces).map Segment.token) = .ok tree := by
    have hskip : Nest.empty.step (.tag ⟨.delims, d.content, 0⟩ none) = .ok Nest.empty := rfl
    rw [Tree.ofTokens, Nest.run_cons hskip, Nest.run_segments h.wellFormed _ hdepth]
    show Except.ok (Tree.ofReversed (tree.cutTexts.reverse ++ [])) = _
    rw [List.append_nil, Tree.ofReversed_cutTexts h.wellFormed]
  rw [parse_eq_ok_iff]
  rw [Tree.ofText, Token.ofText_header_print h]
  exact hnodes

def angles : Delims := ⟨['<', '<'], ['>'], by decide, by decide⟩

-- a text with a lone `<`, a line of text in a block, a name with a line feed
def letter : Tree :=
  [.text "x <\n y".toList,
    .block (.dotted ['a'] [['b']]) false
      [.var .implicit true, .text " < \n".toList, .var (.dotted ['&'] []) false,
        .block (.dotted "c\nd".toList []) true [.inclusion "p/q".toList none]],
    .text ['.']]

theorem parse_header_print_letter :
    letter.Printable angles ∧ parse (angles.header ++ letter.print angles) = .ok letter := by
  have h : letter.Printable angles := by decide
  exact ⟨h, parse_header_print h⟩

end Mustache
