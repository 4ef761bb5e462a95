import Mathlib.Data.List.Basic
import Mustache.Parse
import Mustache.Proofs.Lines

/-!
# Printing trees

A tree is printed under a pair of delimiters, and the printed text is scanned.

* `Tree.print d`               the text of a tree
* `Tree.pieces`                what it is made of: literal text and tags in reading order
* `Tree.WellFormed d`          what is asked of the nodes, so that they can be read back
* `Tree.segments d`            the segments of the printed text
* `Segment.scan_header_print`  the same behind the line that puts the pair in force
-/

namespace Mustache

/-! ## printing -/

namespace Delims

/-- the line that puts the pair in force -/
def header (d : Delims) : Text :=
  ['{', '{', '='] ++ d.opening ++ [' '] ++ d.closing ++ ['=', '}', '}', '\n']

/-- a tag of the pair -/
def wrap (d : Delims) (sigil content : Text) : Text := d.opening ++ sigil ++ content ++ d.closing

end Delims

mutual

def Node.print (d : Delims) : Node → Text
  | .text t => t
  | .var name true => d.wrap [] name.toText
  | .var name false => d.wrap ['&'] name.toText
  | .block name inverted children =>
    d.wrap (if inverted then ['^'] else ['#']) name.toText ++ Tree.print d children ++
      d.wrap ['/'] name.toText
  | .inclusion name _ => d.wrap ['>'] name

def Tree.print (d : Delims) : Tree → Text
  | [] => []
  | n :: ns => n.print d ++ Tree.print d ns

end

/-! ## pieces -/

/-- what a printed text is made of -/
inductive Piece where
  | text (t : Text)
  | tag (kind : TagKind) (content : Text)
  deriving DecidableEq, Repr

mutual

def Node.pieces : Node → List Piece
  | .text t => [.text t]
  | .var name escaped => [.tag (.var escaped) name.toText]
  | .block name inverted children =>
    .tag (.block inverted) name.toText :: (Tree.pieces children ++ [.tag .close name.toText])
  | .inclusion name _ => [.tag .inclusion name]

def Tree.pieces : Tree → List Piece
  | [] => []
  | n :: ns => n.pieces ++ Tree.pieces ns

end

/-- the sigil a kind of tag is written with -/
def TagKind.sigil : TagKind → Option Sigil
  | var true => none
  | var false => some .ampersand
  | block false => some .hash
  | block true => some .caret
  | close => some .slash
  | inclusion => some .angle
  | comment => some .bang
  | delims => some .equals

theorem TagKind.ofSigil_sigil (k : TagKind) : ofSigil k.sigil = k := by
  cases k with
  | var escaped => cases escaped <;> rfl
  | block inverted => cases inverted <;> rfl
  | close => rfl
  | inclusion => rfl
  | comment => rfl
  | delims => rfl

namespace Piece

def print (d : Delims) : Piece → Text
  | text t => t
  | tag kind content => d.opening ++ (Sigil.text kind.sigil ++ content ++ d.terminator kind.sigil)

/-- the segments of a piece at `offset` -/
def segmentsAt (d : Delims) (offset : Nat) : Piece → List Segment
  | text t => Segment.literals t
  | tag kind content => [.tag (print d (tag kind content)) ⟨kind, content, offset⟩]

/-- the segments of pieces printed one behind the other from `offset` on -/
def segments (d : Delims) (offset : Nat) : List Piece → List Segment
  | [] => []
  | p :: ps => p.segmentsAt d offset ++ segments d (offset + (p.print d).length) ps

theorem segments_append (d : Delims) (offset : Nat) (ps qs : List Piece) :
    segments d offset (ps ++ qs) =
      segments d offset ps ++ segments d (offset + (ps.flatMap (print d)).length) qs := by
  induction ps generalizing offset with
  | nil => rfl
  | cons p ps ih =>
    rw [List.cons_append, segments, segments, ih, List.append_assoc, List.flatMap_cons,
      List.length_append, Nat.add_assoc]

end Piece

theorem Delims.terminator_sigil (d : Delims) {kind : TagKind} (h : kind ≠ .delims) :
    d.terminator kind.sigil = d.closing := by
  cases kind with
  | var escaped => cases escaped <;> rfl
  | block inverted => cases inverted <;> rfl
  | close => rfl
  | inclusion => rfl
  | comment => rfl
  | delims => exact absurd rfl h

theorem Piece.print_tag (d : Delims) (kind : TagKind) (h : kind ≠ .delims) (content : Text) :
    print d (tag kind content) = d.wrap (Sigil.text kind.sigil) content := by
  rw [print, d.terminator_sigil h, Delims.wrap]
  simp only [List.append_assoc]

theorem Tree.print_eq_flatMap (d : Delims) (tree : Tree) :
    tree.print d = tree.pieces.flatMap (Piece.print d) := by
  induction tree using Tree.induct with
  | nil => rw [print, pieces, List.flatMap_nil]
  | text t ns ih =>
    rw [print, pieces, Node.print, Node.pieces, ih, List.flatMap_append, List.flatMap_singleton,
      Piece.print]
  | var name escaped ns ih =>
    have hwrap := Piece.print_tag d (.var escaped) TagKind.noConfusion name.toText
    rw [print, pieces, Node.pieces, ih, List.flatMap_append, List.flatMap_singleton, hwrap]
    cases escaped <;> rw [Node.print] <;> rfl
  | block name inverted children ns ihc ih =>
    have hopen := Piece.print_tag d (.block inverted) TagKind.noConfusion name.toText
    have hclose := Piece.print_tag d .close TagKind.noConfusion name.toText
    rw [print, pieces, Node.print, Node.pieces, ih, ihc, List.flatMap_append, List.flatMap_cons,
      List.flatMap_append, List.flatMap_singleton, hopen, hclose]
    simp only [List.append_assoc]
    cases inverted <;> rfl
  | inclusion name indent ns ih =>
    have hwrap := Piece.print_tag d .inclusion TagKind.noConfusion name
    rw [print, pieces, Node.print, Node.pieces, ih, List.flatMap_append, List.flatMap_singleton,
      hwrap]
    rfl

/-! ## scanning what was printed -/

/-- a tag that is read as it was written, with `next` in force behind it -/
structure Delims.Reads (d : Delims) (kind : TagKind) (content : Text) (next : Delims) : Prop where
  trimmed : Text.trim content = content
  onlyAtEnd : Text.OnlyAtEnd (d.terminator kind.sigil) content
  bare : kind.sigil = none → content ≠ [] ∧ ∀ c ∈ content.head?, Sigil.ofChar? c = none
  after : d.after kind content = .ok next

theorem Delims.Reads.readTag {d next : Delims} {kind : TagKind} {content : Text}
    (h : d.Reads kind content next) (rest : Text) :
    readTag d (Sigil.text kind.sigil ++ content ++ d.terminator kind.sigil ++ rest) =
      .ok ⟨kind, content, Sigil.text kind.sigil ++ content ++ d.terminator kind.sigil, next,
        rest⟩ := by
  have hread : Sigil.read (Sigil.text kind.sigil ++ (content ++ d.terminator kind.sigil ++ rest)) =
      (kind.sigil, content ++ d.terminator kind.sigil ++ rest) := by
    refine Sigil.read_append fun hnone c hc => ?_
    obtain ⟨hne, hhead⟩ := h.bare hnone
    rw [List.append_assoc, List.head?_append_of_ne_nil _ hne] at hc
    exact hhead c hc
  rw [Mustache.readTag, List.append_assoc, List.append_assoc, ← List.append_assoc content, hread]
  simp only [h.onlyAtEnd.cut?, TagKind.ofSigil_sigil, h.trimmed, h.after]

namespace Segment

/-- literal text, a tag that is read as it was written, and what follows -/
theorem scan_append_print {d next : Delims} {offset : Nat} {u rest content : Text}
    {kind : TagKind} {segs : List Segment} (hu : Text.OnlyAtEnd d.opening u)
    (htag : d.Reads kind content next)
    (hrest : scan next (offset + u.length + (Piece.print d (.tag kind content)).length) rest =
      .ok segs) :
    scan d offset (u ++ (Piece.print d (.tag kind content) ++ rest)) =
      .ok (literals u ++ Piece.segmentsAt d (offset + u.length) (.tag kind content) ++ segs) := by
  have hcut := hu.cut? (Sigil.text kind.sigil ++ content ++ d.terminator kind.sigil ++ rest)
  have hscan := scan_tag hcut (htag.readTag rest) hrest
  have happ : u ++ (Piece.print d (.tag kind content) ++ rest) =
      u ++ d.opening ++ (Sigil.text kind.sigil ++ content ++ d.terminator kind.sigil ++ rest) := by
    simp only [Piece.print, List.append_assoc]
  rw [happ, hscan, List.append_assoc (literals u)]
  rfl

theorem scan_print_append {d next : Delims} {offset : Nat} {rest content : Text} {kind : TagKind}
    {segs : List Segment} (htag : d.Reads kind content next)
    (hrest : scan next (offset + (Piece.print d (.tag kind content)).length) rest = .ok segs) :
    scan d offset (Piece.print d (.tag kind content) ++ rest) =
      .ok (Piece.segmentsAt d offset (.tag kind content) ++ segs) :=
  scan_append_print (Text.onlyAtEnd_nil _) htag hrest

end Segment

namespace Piece

/-- Pieces that are read as they were written: a text ends where a tag or the end of the whole
follows. -/
def Readable (d : Delims) : List Piece → Prop
  | [] => True
  | text t :: ps =>
    Text.OnlyAtEnd d.opening t ∧ (∀ t' ps', ps ≠ text t' :: ps') ∧ Readable d ps
  | tag kind content :: ps => d.Reads kind content d ∧ Readable d ps

theorem onlyAtEnd_append {d : Delims} {u t : Text} (hu : u = [] ∨ u = ['\n'])
    (ht : Text.OnlyAtEnd d.opening t) : Text.OnlyAtEnd d.opening (u ++ t) := by
  rcases hu with rfl | rfl
  · exact ht
  · refine ht.cons d.opening_isDelim.1 fun hhead => ?_
    have hmem : '\n' ∈ d.opening := List.mem_of_mem_head? hhead
    exact blank_notMem_of_isDelim d.opening_isDelim (by decide) hmem

/-- scanning readable pieces behind the text `u` that is still open -/
theorem scan_append {d : Delims} {ps : List Piece} (h : Readable d ps) {u : Text}
    (hu : Text.OnlyAtEnd d.opening u)
    (hopen : ∀ t ps', ps = text t :: ps' → u = [] ∨ u = ['\n']) (offset : Nat) :
    Segment.scan d offset (u ++ ps.flatMap (print d)) =
      .ok (Segment.literals u ++ segments d (offset + u.length) ps) := by
  induction ps generalizing u offset with
  | nil =>
    rw [List.flatMap_nil, List.append_nil, segments, List.append_nil]
    exact Segment.scan_literals (hu.cut?_eq_none d.opening_isDelim.1)
  | cons p ps ih =>
    cases p with
    | text t =>
      obtain ⟨ht, hne, hps⟩ := h
      have hu' := hopen t ps rfl
      have hlines : Text.WholeLines u := by
        rcases hu' with rfl | rfl
        · exact .inl rfl
        · exact .inr rfl
      have := ih hps (onlyAtEnd_append hu' ht) (fun t' ps' he => absurd he (hne t' ps')) offset
      rw [List.append_assoc, Segment.literals_append hlines, List.append_assoc, List.length_append,
        ← Nat.add_assoc] at this
      exact this
    | tag kind content =>
      obtain ⟨htag, hps⟩ := h
      have hrest : Segment.scan d (offset + u.length + (print d (tag kind content)).length)
          (ps.flatMap (print d)) = .ok (segments d
            (offset + u.length + (print d (tag kind content)).length) ps) :=
        ih hps (Text.onlyAtEnd_nil _) (fun _ _ _ => .inl rfl) _
      rw [List.flatMap_cons, Segment.scan_append_print hu htag hrest, segments, List.append_assoc]

end Piece

/-! ## well-formed trees -/

/-- a name that some text stands for -/
def Name.Written (name : Name) : Prop := ∃ s, Name.ofText s = name

theorem Name.written_iff {name : Name} : name.Written ↔ ofText name.toText = name := by
  constructor
  · rintro ⟨s, rfl⟩
    rw [toText_ofText]
  · intro h
    exact ⟨name.toText, h⟩

instance (name : Name) : Decidable name.Written := decidable_of_iff _ Name.written_iff.symm

/-- what a tag can hold as it is -/
def Delims.Carries (d : Delims) (content : Text) : Prop :=
  content ≠ [] ∧ Text.trim content = content ∧ Text.OnlyAtEnd d.closing content

instance (d : Delims) (content : Text) : Decidable (d.Carries content) :=
  inferInstanceAs (Decidable (_ ∧ _ ∧ _))

/-- what does not start with a sigil -/
def Text.Bare : Text → Prop
  | [] => True
  | c :: _ => c ∉ ['{', '&', '#', '^', '/', '>', '!', '=']

instance : (s : Text) → Decidable s.Bare
  | [] => inferInstanceAs (Decidable True)
  | c :: _ => inferInstanceAs (Decidable (c ∉ ['{', '&', '#', '^', '/', '>', '!', '=']))

def Node.isText : Node → Bool
  | .text _ => true
  | _ => false

mutual

def Node.WellFormed (d : Delims) : Node → Prop
  | .text t => t ≠ [] ∧ Text.OnlyAtEnd d.opening t
  | .var name escaped =>
    d.Carries name.toText ∧ name.Written ∧ (escaped = true → Text.Bare name.toText)
  | .block name _ children => d.Carries name.toText ∧ name.Written ∧ Tree.WellFormed d children
  | .inclusion name indent => d.Carries name ∧ indent = none

/-- every node can be read back, and no text stands next to a text -/
def Tree.WellFormed (d : Delims) : Tree → Prop
  | [] => True
  | n :: ns =>
    n.WellFormed d ∧ Tree.WellFormed d ns ∧ (n.isText = true → ∀ m ∈ ns.head?, m.isText = false)

end

mutual

def Node.decidableWellFormed (d : Delims) : (n : Node) → Decidable (n.WellFormed d)
  | .text t => inferInstanceAs (Decidable (t ≠ [] ∧ Text.OnlyAtEnd d.opening t))
  | .var name escaped => inferInstanceAs
    (Decidable (d.Carries name.toText ∧ name.Written ∧ (escaped = true → Text.Bare name.toText)))
  | .block name _ children =>
    have := Tree.decidableWellFormed d children
    inferInstanceAs
      (Decidable (d.Carries name.toText ∧ name.Written ∧ Tree.WellFormed d children))
  | .inclusion name indent => inferInstanceAs (Decidable (d.Carries name ∧ indent = none))

def Tree.decidableWellFormed (d : Delims) : (tree : Tree) → Decidable (tree.WellFormed d)
  | [] => inferInstanceAs (Decidable True)
  | n :: ns =>
    have := n.decidableWellFormed d
    have := Tree.decidableWellFormed d ns
    inferInstanceAs (Decidable (n.WellFormed d ∧ Tree.WellFormed d ns ∧
      (n.isText = true → ∀ m ∈ ns.head?, m.isText = false)))

end

instance (d : Delims) (tree : Tree) : Decidable (tree.WellFormed d) := tree.decidableWellFormed d

/-! ## the pieces are readable -/

theorem Text.Bare.ofChar? {s : Text} (h : s.Bare) : ∀ c ∈ s.head?, Sigil.ofChar? c = none := by
  intro c hmem
  obtain ⟨s, rfl⟩ := List.head?_eq_some_iff.1 hmem
  cases hc : Sigil.ofChar? c with
  | none => rfl
  | some g =>
    obtain rfl := Sigil.toChar_of_ofChar? hc
    cases g <;> exact absurd (by decide) h

theorem Delims.Carries.reads {d : Delims} {content : Text} (h : d.Carries content)
    {kind : TagKind} (hkind : kind ≠ .delims) (hcomment : kind ≠ .comment)
    (hbare : kind.sigil = none → ∀ c ∈ content.head?, Sigil.ofChar? c = none) :
    d.Reads kind content d := by
  obtain ⟨hne, htrim, hend⟩ := h
  refine ⟨htrim, ?_, fun hnone => ⟨hne, hbare hnone⟩, ?_⟩
  · rw [d.terminator_sigil hkind]
    exact hend
  · have hafter : d.after kind content = if content = [] then .error .emptyName else .ok d := by
      cases kind with
      | comment => exact absurd rfl hcomment
      | delims => exact absurd rfl hkind
      | var escaped => rfl
      | block inverted => rfl
      | close => rfl
      | inclusion => rfl
    rw [hafter, if_neg hne]

theorem Piece.Readable.append_tag {d : Delims} {ps qs : List Piece} {kind : TagKind}
    {content : Text} (hps : Readable d ps) (hqs : Readable d (tag kind content :: qs)) :
    Readable d (ps ++ tag kind content :: qs) := by
  induction ps with
  | nil => exact hqs
  | cons p ps ih =>
    cases p with
    | text t =>
      obtain ⟨ht, hne, hps⟩ := hps
      refine ⟨ht, fun t' ps' he => ?_, ih hps⟩
      cases ps with
      | nil => cases he
      | cons p' ps =>
        obtain ⟨rfl, -⟩ := List.cons.inj he
        exact hne t' ps rfl
    | tag kind' content' => exact ⟨hps.1, ih hps.2⟩

theorem Tree.pieces_ne_text {tree : Tree} (h : ∀ n ∈ tree.head?, n.isText = false) (t : Text)
    (ps : List Piece) : tree.pieces ≠ .text t :: ps := by
  intro hps
  cases tree with
  | nil => cases hps
  | cons n ns =>
    cases n with
    | text u => cases h (.text u) rfl
    | var name escaped => cases hps
    | block name inverted children => cases hps
    | inclusion name indent => cases hps

theorem Tree.readable_pieces {d : Delims} {tree : Tree} (h : tree.WellFormed d) :
    Piece.Readable d tree.pieces := by
  induction tree using Tree.induct with
  | nil => trivial
  | text t ns ih =>
    obtain ⟨⟨-, ht⟩, hns, hne⟩ := h
    exact ⟨ht, pieces_ne_text (hne rfl), ih hns⟩
  | var name escaped ns ih =>
    obtain ⟨⟨hname, -, hbare⟩, hns, -⟩ := h
    refine ⟨hname.reads TagKind.noConfusion TagKind.noConfusion fun hnone => ?_, ih hns⟩
    cases escaped with
    | true => exact (hbare rfl).ofChar?
    | false => cases hnone
  | block name inverted children ns ihc ih =>
    obtain ⟨⟨hname, -, hchildren⟩, hns, -⟩ := h
    have hclose : d.Reads .close name.toText d :=
      hname.reads TagKind.noConfusion TagKind.noConfusion nofun
    have hopen : d.Reads (.block inverted) name.toText d :=
      hname.reads TagKind.noConfusion TagKind.noConfusion fun hnone => by
        cases inverted <;> cases hnone
    have := (ihc hchildren).append_tag ⟨hclose, ih hns⟩
    rw [pieces, Node.pieces, List.cons_append, List.append_assoc]
    exact ⟨hopen, this⟩
  | inclusion name indent ns ih =>
    obtain ⟨⟨hname, -⟩, hns, -⟩ := h
    exact ⟨hname.reads TagKind.noConfusion TagKind.noConfusion nofun, ih hns⟩

/-- the segments of a printed tree -/
def Tree.segments (d : Delims) (tree : Tree) : List Segment := Piece.segments d 0 tree.pieces

/-! ## the header -/

namespace Delims

/-- the content of the tag that puts the pair in force -/
def content (d : Delims) : Text := d.opening ++ ' ' :: d.closing

theorem ofContent?_content (d : Delims) : ofContent? d.content = some d := by
  have hwords : Text.words d.content = [d.opening, d.closing] :=
    Text.words_pair d.opening_isDelim.1 d.closing_isDelim.1 (isBlank_of_isDelim d.opening_isDelim)
      (isBlank_of_isDelim d.closing_isDelim)
  rw [ofContent?, hwords]
  exact dif_pos ⟨d.opening_isDelim, d.closing_isDelim⟩

theorem reads_content (d : Delims) : braces.Reads .delims d.content d := by
  refine ⟨?_, ?_, nofun, ?_⟩
  · exact Text.trim_pair d.opening_isDelim.1 d.closing_isDelim.1
      (isBlank_of_isDelim d.opening_isDelim) (isBlank_of_isDelim d.closing_isDelim)
  · have hno : '=' ∉ d.content := by
      rw [content, List.mem_append, List.mem_cons, not_or, not_or]
      exact ⟨equals_notMem_of_isDelim d.opening_isDelim, by decide,
        equals_notMem_of_isDelim d.closing_isDelim⟩
    exact Text.onlyAtEnd_of_notMem hno
  · rw [after, ofContent?_content]

theorem header_eq (d : Delims) :
    d.header = Piece.print braces (.tag .delims d.content) ++ ['\n'] := by
  simp [header, Piece.print, content, braces, TagKind.sigil, Sigil.text, Sigil.toChar, terminator,
    Sigil.closer]

end Delims

/-- the header and the printed tree, cut into segments -/
theorem Segment.scan_header_print {d : Delims} {tree : Tree} (h : tree.WellFormed d) :
    scan .braces 0 (d.header ++ tree.print d) =
      .ok (tag (Piece.print .braces (.tag .delims d.content)) ⟨.delims, d.content, 0⟩ ::
        literal ['\n'] :: Piece.segments d d.header.length tree.pieces) := by
  have hopen : Text.OnlyAtEnd d.opening ['\n'] :=
    Piece.onlyAtEnd_append (.inr rfl) (Text.onlyAtEnd_nil _)
  have hrest := Piece.scan_append (tree.readable_pieces h) hopen (fun _ _ _ => .inr rfl)
    (0 + (Piece.print .braces (.tag .delims d.content)).length)
  have hlength : d.header.length =
      0 + (Piece.print .braces (.tag .delims d.content)).length + ['\n'].length := by
    rw [d.header_eq, List.length_append, Nat.zero_add]
  rw [hlength, d.header_eq, List.append_assoc, Tree.print_eq_flatMap]
  exact scan_print_append d.reads_content hrest

end Mustache
