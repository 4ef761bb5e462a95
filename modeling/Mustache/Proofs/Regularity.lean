import Mathlib.Data.List.Basic
import Mustache.Proofs.Nesting
import Mustache.Proofs.Reparse
import Mustache.Proofs.TagStarts

/-!
# Parsed trees are regular

Rendering and loading take for granted what parsing makes sure of: texts are not empty and stand
apart, names are what some tag can hold, indentation is blank and on one line, and blocks are not
nested too deeply.  Names and indentation are right from the tokens on; texts come right when a
block is closed; depth is bounded by the stack of open blocks.

* `Text.Trimmed`, `Text.Named`, `Text.Indents`   what tags and lines can hold
* `Tree.Regular`                the trees that parsing makes
* `Token.regular_of_ofText`     tokens are regular
* `Nest.Sound`                  the invariant of the stack
* `regular_of_parse`            parsed trees are regular
-/

namespace Mustache

/-! ## contents -/

namespace Text

/-- no blank at either end -/
def Trimmed (s : Text) : Prop :=
  (∀ c ∈ s.head?, isBlank c = false) ∧ ∀ c ∈ s.getLast?, isBlank c = false

/-- what a tag holds that needs a name -/
def Named (s : Text) : Prop := s ≠ [] ∧ s.Trimmed

/-- what stands in front of a tag that is alone on its line -/
def Indents (s : Text) : Prop := s ≠ [] ∧ s.Spaces

theorem head?_trimStart (s : Text) : ∀ c ∈ (trimStart s).head?, isBlank c = false := by
  intro c hc
  have hnot := List.head?_dropWhile_not isBlank s
  change (trimStart s).head? = some c at hc
  rw [trimStart] at hc
  rw [hc] at hnot
  exact hnot

theorem trimmed_trim (s : Text) : Trimmed (trim s) := by
  constructor
  · -- what is dropped at the end leaves the first character alone
    intro c hc
    have hsuffix : trimStart (trimStart s).reverse <:+ (trimStart s).reverse :=
      List.dropWhile_suffix isBlank
    obtain ⟨u, hu⟩ := List.reverse_prefix.2 hsuffix
    rw [List.reverse_reverse] at hu
    have hhead : (trimStart (trimStart s).reverse).reverse.head? = some c := hc
    apply head?_trimStart s
    rw [← hu, List.head?_append, hhead]
    rfl
  · intro c hc
    rw [trim, trimEnd, List.getLast?_reverse] at hc
    exact head?_trimStart _ c hc

end Text

/-! ## regular trees -/

/-- a name that is read again from its text, and whose text a tag can hold -/
def Name.Regular (name : Name) : Prop := name.toText.Named ∧ Name.ofText name.toText = name

theorem Name.regular_ofText {s : Text} (h : s.Named) : (Name.ofText s).Regular := by
  rw [Regular, toText_ofText]
  exact ⟨h, rfl⟩

mutual

def Node.Regular : Node → Prop
  | .text t => t ≠ []
  | .var name _ => name.Regular
  | .block name _ children => name.Regular ∧ Tree.Regular children
  | .inclusion name indent => name.Named ∧ ∀ i ∈ indent, Text.Indents i

/-- every node is regular, and no text stands next to a text -/
def Tree.Regular : Tree → Prop
  | [] => True
  | n :: ns =>
    n.Regular ∧ (n.isText = true → ∀ m ∈ ns.head?, m.isText = false) ∧ Tree.Regular ns

end

/-- a node among nodes whose texts are not joined yet, inside `k` open blocks -/
def Node.FitsAt (k : Nat) (n : Node) : Prop :=
  (n.isText = true ∨ n.Regular) ∧ k + n.depth ≤ maxNesting

namespace Tree

theorem regular_cons {n : Node} {ns : Tree} (hn : n.isText = true ∨ n.Regular)
    (hns : Regular ns) : Regular (cons n ns) := by
  have hfront : n.isText = false → Regular (n :: ns) := fun hno =>
    ⟨hn.resolve_left (by simp [hno]), fun hyes => absurd hyes (by simp [hno]), hns⟩
  cases n with
  | text t =>
    by_cases ht : t = []
    · rw [ht]
      exact hns
    · rcases ns with _ | ⟨u | _ | _ | _, ns⟩
      · simp only [cons, if_neg ht]
        exact ⟨ht, fun _ m hm => (by cases hm), trivial⟩
      · obtain ⟨-, hapart, hrest⟩ := hns
        have hjoin : cons (.text t) (.text u :: ns) = .text (t ++ u) :: ns := if_neg ht
        rw [hjoin]
        exact ⟨List.append_ne_nil_of_left_ne_nil ht u, hapart, hrest⟩
      all_goals
        simp only [cons, if_neg ht]
        exact ⟨ht, fun _ m hm => (by cases hm; rfl), hns⟩
  | var name escaped => exact hfront rfl
  | block name inverted children => exact hfront rfl
  | inclusion name indent => exact hfront rfl

theorem depth_cons (n : Node) (ns : Tree) : depth (cons n ns) = max n.depth ns.depth := by
  cases n with
  | text t =>
    by_cases ht : t = []
    · rw [ht]
      exact (Nat.zero_max _).symm
    · rcases ns with - | ⟨u | - | - | -, ns⟩ <;> simp [cons, depth, Node.depth, ht]
  | var name escaped => rfl
  | block name inverted children => rfl
  | inclusion name indent => rfl

/-- closing a block, or coming to the end, joins the texts -/
theorem regular_ofReversed {k : Nat} {nodes : List Node} (hk : k ≤ maxNesting)
    (h : ∀ n ∈ nodes, n.FitsAt k) :
    Regular (ofReversed nodes) ∧ k + depth (ofReversed nodes) ≤ maxNesting := by
  have hreverse : ∀ n ∈ nodes.reverse, n.FitsAt k := fun n hn => h n (List.mem_reverse.1 hn)
  rw [ofReversed_eq_foldr]
  generalize nodes.reverse = ns at hreverse
  induction ns with
  | nil => exact ⟨trivial, hk⟩
  | cons n ns ih =>
    obtain ⟨hn, hdepth⟩ := hreverse n List.mem_cons_self
    obtain ⟨hregular, hbound⟩ := ih fun m hm => hreverse m (List.mem_cons_of_mem _ hm)
    refine ⟨regular_cons hn hregular, ?_⟩
    rw [List.foldr_cons, depth_cons]
    omega

end Tree

/-! ## regular tokens -/

/-- what lines leave of tags that could be read -/
def Token.Regular : Token → Prop
  | .text _ => True
  | .tag t indent =>
    (t.kind ≠ .comment → t.kind ≠ .delims → t.content.Named) ∧ ∀ i ∈ indent, Text.Indents i

theorem named_of_readTag {d : Delims} {s : Text} {r : TagReading} (h : readTag d s = .ok r)
    (hcomment : r.kind ≠ .comment) (hdelims : r.kind ≠ .delims) : r.content.Named := by
  obtain ⟨inner, -, hafter, -, hcontent, -⟩ := readTag_eq_ok h
  refine ⟨?_, hcontent ▸ Text.trimmed_trim inner⟩
  intro hempty
  have hfail : d.after r.kind [] = .error .emptyName := by
    cases hkind : r.kind with
    | comment => exact absurd hkind hcomment
    | delims => exact absurd hkind hdelims
    | var | block | close | inclusion => rfl
  rw [hempty, hfail] at hafter
  cases hafter

theorem Token.regular_of_ofText {source : Text} {ts : List Token} (h : ofText source = .ok ts) :
    ∀ t ∈ ts, t.Regular := by
  intro token hmem
  cases token with
  | text t => trivial
  | tag t indent =>
    constructor
    · obtain ⟨d, after, -, r, hread, hkind, hcontent⟩ := reads_of_mem h hmem
      rw [← hkind, ← hcontent]
      exact named_of_readTag hread
    · intro lead hlead
      obtain ⟨segs, hscan, rfl⟩ := exists_scan_of_ofText h
      rw [ofSegments_eq_flatMap] at hmem
      obtain ⟨line, hline, hmem⟩ := List.mem_flatMap.1 hmem
      obtain ⟨hne, halone⟩ := (exists_of_tag_mem_lineTokens hmem).2 lead hlead
      exact ⟨hne, halone.spaces (Segment.onOneLine_of_scan hscan) hline⟩

/-! ## the stack -/

namespace Nest

/-- The nodes of every open block fit where they are, and the block has a name. -/
inductive Sound : List OpenBlock → List Node → Prop where
  | outer {nodes : List Node} : (∀ n ∈ nodes, n.FitsAt 0) → Sound [] nodes
  | inner {o : OpenBlock} {stack : List OpenBlock} {nodes : List Node} :
      stack.length < maxNesting → o.name.Named → Sound stack o.before →
      (∀ n ∈ nodes, n.FitsAt (stack.length + 1)) → Sound (o :: stack) nodes

namespace Sound
variable {stack : List OpenBlock} {nodes : List Node}

theorem fitsAt (h : Sound stack nodes) : ∀ n ∈ nodes, n.FitsAt stack.length := by
  cases h with
  | outer hnodes => exact hnodes
  | inner _ _ _ hnodes => exact hnodes

theorem length_le (h : Sound stack nodes) : stack.length ≤ maxNesting := by
  cases h with
  | outer => exact Nat.zero_le _
  | inner hroom => exact hroom

theorem add (h : Sound stack nodes) {n : Node} (hn : n.FitsAt stack.length) :
    Sound stack (n :: nodes) := by
  have hnodes := List.forall_mem_cons.2 ⟨hn, h.fitsAt⟩
  cases h with
  | outer => exact .outer hnodes
  | inner hroom hname hbefore => exact .inner hroom hname hbefore hnodes

/-- a node without children -/
theorem add_leaf (h : Sound stack nodes) {n : Node} (hn : n.isText = true ∨ n.Regular)
    (hdepth : n.depth = 0) : Sound stack (n :: nodes) := by
  refine h.add ⟨hn, ?_⟩
  rw [hdepth]
  exact h.length_le

theorem close {o : OpenBlock} (h : Sound (o :: stack) nodes) :
    Sound stack (.block (Name.ofText o.name) o.inverted (Tree.ofReversed nodes) :: o.before) := by
  cases h with
  | inner hroom hname hbefore hnodes =>
    obtain ⟨hregular, hdepth⟩ := Tree.regular_ofReversed hroom hnodes
    refine hbefore.add ⟨.inr ⟨Name.regular_ofText hname, hregular⟩, ?_⟩
    rw [Node.depth]
    omega

theorem step {b b' : Nest} {t : Token} (h : Sound b.stack b.current) (ht : t.Regular)
    (hs : b.step t = .ok b') : Sound b'.stack b'.current := by
  cases t with
  | text t =>
    cases hs
    exact h.add_leaf (.inl rfl) rfl
  | tag t indent =>
    obtain ⟨kind, content, offset⟩ := t
    obtain ⟨hnamed, hindent⟩ := ht
    cases kind with
    | var escaped =>
      cases hs
      have hname := hnamed TagKind.noConfusion TagKind.noConfusion
      exact h.add_leaf (.inr (Name.regular_ofText hname)) rfl
    | block inverted =>
      change b.enter content inverted offset = .ok b' at hs
      unfold enter at hs
      split at hs
      · cases hs
      · next hroom =>
        cases hs
        have hname := hnamed TagKind.noConfusion TagKind.noConfusion
        exact .inner (Nat.not_le.1 hroom) hname h fun n hn => by cases hn
    | close =>
      change b.leave content offset = .ok b' at hs
      unfold leave at hs
      split at hs
      · cases hs
      · next o stack hstack =>
        split at hs
        · next hname =>
          cases hs
          rw [hstack] at h
          rw [← hname]
          exact h.close
        · cases hs
    | inclusion =>
      cases hs
      have hname := hnamed TagKind.noConfusion TagKind.noConfusion
      exact h.add_leaf (.inr ⟨hname, hindent⟩) rfl
    | comment | delims =>
      cases hs
      exact h

theorem run {b b' : Nest} {ts : List Token} (h : Sound b.stack b.current)
    (hts : ∀ t ∈ ts, t.Regular) (hr : b.run ts = .ok b') : Sound b'.stack b'.current := by
  induction ts generalizing b with
  | nil =>
    cases hr
    exact h
  | cons t ts ih =>
    rw [Nest.run] at hr
    split at hr
    · cases hr
    · next b₁ hs =>
      have hstep := h.step (hts t List.mem_cons_self) hs
      exact ih hstep (fun t' ht' => hts t' (List.mem_cons_of_mem _ ht')) hr

end Sound
end Nest

/-! ## parsed trees -/

theorem Tree.regular_of_ofTokens {ts : List Token} {tree : Tree} (hts : ∀ t ∈ ts, t.Regular)
    (h : ofTokens ts = .ok tree) : tree.Regular ∧ tree.depth ≤ maxNesting := by
  obtain ⟨nodes, hrun, rfl⟩ := exists_run_of_ofTokens h
  have hstart : Nest.Sound Nest.empty.stack Nest.empty.current := .outer fun n hn => by cases hn
  have hsound : Nest.Sound [] nodes := hstart.run hts hrun
  obtain ⟨hregular, hdepth⟩ := regular_ofReversed (Nat.zero_le _) hsound.fitsAt
  exact ⟨hregular, (Nat.zero_add _).ge.trans hdepth⟩

/-- **Parsed trees are regular.**  At every level no text is empty and no two texts stand next to
each other, blocks are nested at most 512 deep, every name is not empty, without blanks at its ends
and read again from its text, and indentation is not empty and made of spaces, tabs and carriage
returns. -/
theorem regular_of_parse {source : Text} {tree : Tree} (h : parse source = .ok tree) :
    tree.Regular ∧ tree.depth ≤ 512 := by
  obtain ⟨ts, hts, htree⟩ := Tree.exists_tokens_of_ofText (parse_eq_ok_iff.1 h)
  exact Tree.regular_of_ofTokens (Token.regular_of_ofText hts) htree

/-- an indented inclusion, texts around a comment of two lines, a block in a block -/
def layered : Text :=
  "{{=<% %>=}}\n \t<%> p.q %>\r\na<%! x\n y %>b\n<%#s%>\n<%^ .%><%&v.%><%/.%>\n<%/ s %>".toList

theorem regular_of_parse_layered : ∃ tree : Tree, parse layered = .ok tree ∧
    tree = [.inclusion "p.q".toList (some [' ', '\t']), .text "ab\n".toList,
      .block (.dotted ['s'] []) false
        [.block .implicit true [.var (.dotted ['v'] [[]]) false], .text ['\n']]] ∧
    tree.Regular ∧ tree.depth ≤ 512 := by
  have h : parse layered = .ok [.inclusion "p.q".toList (some [' ', '\t']), .text "ab\n".toList,
      .block (.dotted ['s'] []) false
        [.block .implicit true [.var (.dotted ['v'] [[]]) false], .text ['\n']]] :=
    parse_eq_ok_iff.2 (by with_unfolding_all rfl)
  exact ⟨_, h, rfl, regular_of_parse h⟩

end Mustache
