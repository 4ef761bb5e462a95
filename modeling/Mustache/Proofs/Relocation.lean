import Mustache.Node.OfTokens
import Mustache.Proofs.Lines

/-!
# Moved tags and respelled texts

Two texts may be made of the same tags and differ only in where the tags are and in how the literal
text between them is spelled.  Then the same lines exist for one tag, the same blocks are nested,
and the same fault is found: segments, tokens and nodes of the one are those of the other, respelled
by a function `f` on texts and moved by a function `g` on offsets.

* `Respelling f`            what is asked of `f`
* `Segment.move`, `Token.move`, `Nest.move`, `Tree.respell`; `move id g` respells nothing
* `moved g`                 the outcome for moved tags
* `Token.ofSegments_move`   the lines of moved segments
* `Tree.ofTokens_move`      nesting moved tokens
-/

namespace Mustache

/-! ## what is moved -/

/-- a way to spell texts that keeps apart what the rules for lines and nodes tell apart -/
structure Respelling (f : Text → Text) : Prop where
  append (a b : Text) : f (a ++ b) = f a ++ f b
  eq_nil_iff (t : Text) : f t = [] ↔ t = []
  endsLine (t : Text) : Text.endsLine (f t) = Text.endsLine t
  all_isLineBlank (t : Text) : (f t).all isLineBlank = t.all isLineBlank

theorem Respelling.id : Respelling id := by
  constructor <;> intros <;> rfl

theorem Respelling.nil {f : Text → Text} (hf : Respelling f) : f [] = [] := (hf.eq_nil_iff []).2 rfl

/-- the content of a comment is respelled; every other content is a name or names delimiters -/
def TagKind.respell (f : Text → Text) : TagKind → Text → Text
  | comment, content => f content
  | _, content => content

def Tag.move (f : Text → Text) (g : Nat → Nat) (t : Tag) : Tag :=
  ⟨t.kind, t.kind.respell f t.content, g t.offset⟩

def Segment.move (f : Text → Text) (g : Nat → Nat) : Segment → Segment
  | literal t => literal (f t)
  | tag raw t => tag (f raw) (t.move f g)

def Token.move (f : Text → Text) (g : Nat → Nat) : Token → Token
  | text t => text (f t)
  | tag t indent => tag (t.move f g) indent

def Fault.move (g : Nat → Nat) (f : Fault) : Fault := { f with offset := g f.offset }

/-- the outcome for moved tags -/
def moved {α β : Type} (g : Nat → Nat) (h : α → β) (x : Except Fault α) : Except Fault β :=
  (x.map h).mapError (Fault.move g)

mutual

def Node.respell (f : Text → Text) : Node → Node
  | .text t => .text (f t)
  | .var name escaped => .var name escaped
  | .block name inverted children => .block name inverted (Tree.respell f children)
  | .inclusion name indent => .inclusion name indent

def Tree.respell (f : Text → Text) : Tree → Tree
  | [] => []
  | n :: ns => n.respell f :: Tree.respell f ns

end

theorem TagKind.respell_id (kind : TagKind) (content : Text) :
    kind.respell id content = content := by
  cases kind <;> rfl

theorem TagKind.respell_of_ne {kind : TagKind} (h : kind ≠ comment) (f : Text → Text)
    (content : Text) : kind.respell f content = content := by
  cases kind with
  | comment => exact absurd rfl h
  | _ => rfl

theorem TagKind.respell_respell (kind : TagKind) (f f' : Text → Text) (content : Text) :
    kind.respell f' (kind.respell f content) = kind.respell (f' ∘ f) content := by
  cases kind <;> rfl

theorem Tag.move_id (g : Nat → Nat) (t : Tag) : t.move id g = { t with offset := g t.offset } := by
  rw [move, TagKind.respell_id]

theorem Delims.after_respell (d : Delims) (kind : TagKind) (f : Text → Text) (content : Text) :
    d.after kind (kind.respell f content) = d.after kind content := by
  cases kind <;> rfl

theorem Tree.respell_id (tree : Tree) : tree.respell id = tree := by
  induction tree using Tree.induct with
  | nil => rfl
  | text t ns ih => exact congrArg (_ :: ·) ih
  | var name escaped ns ih => exact congrArg (_ :: ·) ih
  | block name inverted children ns ihc ih =>
    rw [respell, Node.respell, ihc, ih]
  | inclusion name indent ns ih => exact congrArg (_ :: ·) ih

variable {f : Text → Text} {g : Nat → Nat}

/-! ## lines -/

namespace Segment

theorem move_id_tag (g : Nat → Nat) (raw : Text) (t : Tag) :
    (tag raw t).move id g = tag raw { t with offset := g t.offset } := by
  rw [move, Tag.move_id, id]

theorem map_move_id_literals (g : Nat → Nat) (s : Text) :
    (literals s).map (move id g) = literals s := by
  rw [literals, List.map_map]
  rfl

theorem literalText_move (hf : Respelling f) (s : Segment) :
    (s.move f g).literalText = f s.literalText := by
  cases s with
  | literal t => rfl
  | tag raw t => exact hf.nil.symm

theorem endsLine_move (hf : Respelling f) (s : Segment) : (s.move f g).endsLine = s.endsLine := by
  cases s with
  | literal t => exact hf.endsLine t
  | tag raw t => rfl

theorem splitLines_move (hf : Respelling f) (segs : List Segment) :
    splitLines (segs.map (move f g)) = (splitLines segs).map (List.map (move f g)) := by
  induction segs with
  | nil => rfl
  | cons s segs ih =>
    rw [List.map_cons, splitLines, splitLines, endsLine_move hf, ih]
    split
    · rfl
    · cases splitLines segs <;> rfl

theorem standalone?_move (hf : Respelling f) (line : List Segment) :
    standalone? (line.map (move f g)) = (standalone? line).map (Tag.move f g) := by
  have htags : (line.map (move f g)).filterMap tag? =
      (line.filterMap tag?).map (Tag.move f g) := by
    rw [List.filterMap_map, List.map_filterMap]
    congr 1
    funext s
    cases s <;> rfl
  have hidle : (line.map (move f g)).all isIdle = line.all isIdle := by
    rw [List.all_map]
    congr 1
    funext s
    cases s with
    | literal t => exact hf.all_isLineBlank t
    | tag raw t => rfl
  rw [standalone?, standalone?, htags, hidle]
  rcases line.filterMap tag? with - | ⟨t, - | ⟨t', ts⟩⟩
  · rfl
  · show (if t.kind.standsAlone && line.all isIdle then some _ else none) =
      (if t.kind.standsAlone && line.all isIdle then some t else none).map _
    cases t.kind.standsAlone && line.all isIdle <;> rfl
  · rfl

theorem forOneTag_map_move_iff (hf : Respelling f) {line : List Segment} :
    ForOneTag (line.map (move f g)) ↔ ForOneTag line := by
  rw [forOneTag_iff, forOneTag_iff, standalone?_move hf]
  exact not_congr Option.map_eq_none_iff

theorem leadingText_move (hf : Respelling f) (line : List Segment) :
    leadingText (line.map (move f g)) = f (leadingText line) := by
  induction line with
  | nil => exact hf.nil.symm
  | cons s line ih =>
    cases s with
    | literal t =>
      show f t ++ leadingText (line.map (move f g)) = f (t ++ leadingText line)
      rw [ih, hf.append]
    | tag raw t => exact hf.nil.symm

end Segment

namespace Token

theorem move_move (f f' : Text → Text) (g g' : Nat → Nat) (t : Token) :
    (t.move f g).move f' g' = t.move (f' ∘ f) (g' ∘ g) := by
  cases t with
  | text t => rfl
  | tag t indent =>
    rw [move, move, move, Tag.move, Tag.move, Tag.move, TagKind.respell_respell]
    rfl

/-- a line of moved segments; indentation has to be spelled as before -/
theorem lineTokens_move (hf : Respelling f) {line : List Segment}
    (hlead : ∀ lead t, Segment.Alone line lead t → f lead = lead) :
    lineTokens (line.map (Segment.move f g)) = (lineTokens line).map (move f g) := by
  rw [lineTokens, lineTokens, Segment.standalone?_move hf, Segment.leadingText_move hf]
  cases hsome : standalone? line with
  | some t =>
    rw [hlead _ t (Segment.alone_iff.2 ⟨hsome, rfl⟩)]
    rfl
  | none =>
    show (line.map (Segment.move f g)).map Segment.token = (line.map Segment.token).map (move f g)
    rw [List.map_map, List.map_map]
    congr 1
    funext s
    cases s <;> rfl

theorem ofSegments_move (hf : Respelling f) {segs : List Segment}
    (hlead : ∀ line ∈ Segment.splitLines segs, ∀ lead t,
      Segment.Alone line lead t → f lead = lead) :
    ofSegments (segs.map (Segment.move f g)) = (ofSegments segs).map (move f g) := by
  rw [ofSegments_eq_flatMap, ofSegments_eq_flatMap, Segment.splitLines_move hf,
    List.flatMap_map, List.map_flatMap]
  exact List.flatMap_congr fun line hline => lineTokens_move hf (hlead line hline)

end Token

/-! ## nesting -/

namespace Tree

theorem cons_respell (hf : Respelling f) (n : Node) (ns : Tree) :
    cons (n.respell f) (ns.respell f) = (cons n ns).respell f := by
  cases n with
  | text t =>
    by_cases ht : t = []
    · subst ht
      show cons (.text (f [])) (ns.respell f) = ns.respell f
      rw [hf.nil]
      rfl
    · have hft : f t ≠ [] := mt (hf.eq_nil_iff t).1 ht
      rcases ns with - | ⟨u | - | - | -, ns⟩ <;>
        simp [cons, respell, Node.respell, ht, hft, hf.append]
  | var name escaped => rfl
  | block name inverted children => rfl
  | inclusion name indent => rfl

theorem ofReversed_respell (hf : Respelling f) (nodes : List Node) :
    ofReversed (nodes.map (Node.respell f)) = (ofReversed nodes).respell f := by
  rw [ofReversed_eq_foldr, ofReversed_eq_foldr, ← List.map_reverse]
  induction nodes.reverse with
  | nil => rfl
  | cons n nodes ih => rw [List.map_cons, List.foldr_cons, ih, cons_respell hf, List.foldr_cons]

end Tree

def OpenBlock.move (f : Text → Text) (g : Nat → Nat) (o : OpenBlock) : OpenBlock :=
  ⟨o.name, o.inverted, g o.offset, o.before.map (Node.respell f)⟩

namespace Nest

def move (f : Text → Text) (g : Nat → Nat) (b : Nest) : Nest :=
  ⟨b.stack.map (OpenBlock.move f g), b.current.map (Node.respell f)⟩

theorem enter_move (name : Text) (inverted : Bool) (offset : Nat) (b : Nest) :
    (b.move f g).enter name inverted (g offset) =
      moved g (move f g) (b.enter name inverted offset) := by
  have hlength : (b.move f g).stack.length = b.stack.length := List.length_map ..
  rw [enter, enter, hlength]
  split <;> rfl

theorem leave_move (hf : Respelling f) (name : Text) (offset : Nat) (b : Nest) :
    (b.move f g).leave name (g offset) = moved g (move f g) (b.leave name offset) := by
  obtain ⟨stack, nodes⟩ := b
  cases stack with
  | nil => rfl
  | cons o stack =>
    by_cases hname : o.name = name
    · simp only [leave, move, List.map_cons, OpenBlock.move, if_pos hname,
        Tree.ofReversed_respell hf]
      rfl
    · simp only [leave, move, List.map_cons, OpenBlock.move, if_neg hname]
      rfl

theorem step_move (hf : Respelling f) (b : Nest) (t : Token) :
    (b.move f g).step (t.move f g) = moved g (move f g) (b.step t) := by
  cases t with
  | text t => rfl
  | tag t indent =>
    obtain ⟨kind, content, offset⟩ := t
    cases kind with
    | var escaped => rfl
    | block inverted => exact enter_move content inverted offset b
    | close => exact leave_move hf content offset b
    | inclusion => rfl
    | comment => rfl
    | delims => rfl

theorem run_move (hf : Respelling f) (b : Nest) (ts : List Token) :
    (b.move f g).run (ts.map (Token.move f g)) = moved g (move f g) (b.run ts) := by
  induction ts generalizing b with
  | nil => rfl
  | cons t ts ih =>
    rw [List.map_cons, run, run, step_move hf]
    cases b.step t with
    | error e => rfl
    | ok b' => exact ih b'

theorem finish_move (hf : Respelling f) (b : Nest) :
    (b.move f g).finish = moved g (Tree.respell f) b.finish := by
  obtain ⟨stack, nodes⟩ := b
  cases stack with
  | nil => exact congrArg Except.ok (Tree.ofReversed_respell hf nodes)
  | cons o stack => rfl

end Nest

/-- moved tokens are nested into the respelled tree, or their fault is moved -/
theorem Tree.ofTokens_move (hf : Respelling f) (g : Nat → Nat) (ts : List Token) :
    ofTokens (ts.map (Token.move f g)) = moved g (respell f) (ofTokens ts) := by
  have hrun : Nest.empty.run (ts.map (Token.move f g)) =
      moved g (Nest.move f g) (Nest.empty.run ts) := Nest.run_move hf Nest.empty ts
  rw [ofTokens, ofTokens, hrun]
  cases Nest.empty.run ts with
  | error e => rfl
  | ok b => exact Nest.finish_move hf b

/-- it does not matter to a tree where the tags were -/
theorem Tree.ofTokens_move_eq_ok_iff (g : Nat → Nat) {ts : List Token} {tree : Tree} :
    ofTokens (ts.map (Token.move id g)) = .ok tree ↔ ofTokens ts = .ok tree := by
  rw [ofTokens_move .id]
  cases ofTokens ts with
  | error e =>
    constructor <;> intro h <;> cases h
  | ok tree' =>
    show Except.ok (tree'.respell id) = _ ↔ _
    rw [respell_id]

end Mustache
