import Mathlib.Data.List.Basic
import Mustache.Proofs.Continuation

/-!
# Parsing two texts, one behind the other

A text that parses, has no open line at its end and leaves the braces in force is put in front of
another one.  Then the second text is parsed as if it stood alone: its nodes come behind those of
the first, and a fault of it is reported at its place, only so many lines further down.

* `Tree.join`       a tree behind another, text joined with text where they meet
* `Nest.raise`      the same open blocks and nodes, above nodes that were there before
* `Nest.run_raise`  tokens do the same above other nodes
* `Tree.ofTokens_append`  nesting tokens behind others
* `parse_append`    parsing two texts
-/

namespace Mustache

/-! ## positions -/

/-- behind complete lines columns are counted anew, and lines go on -/
theorem Position.ofOffset_append {a : Text} (ha : Text.WholeLines a) (b : Text) (offset : Nat) :
    ofOffset (a ++ b) (offset + a.length) =
      ⟨(ofOffset b offset).line + a.count '\n', (ofOffset b offset).column⟩ := by
  have htake : (a ++ b).take (offset + a.length) = a ++ b.take offset := by
    rw [Nat.add_comm, List.take_length_add_append]
  have hcolumn : ((a ++ b.take offset).reverse.takeWhile (· ≠ '\n')) =
      (b.take offset).reverse.takeWhile (· ≠ '\n') := by
    rw [List.reverse_append, List.takeWhile_append, ha.takeWhile_reverse, List.append_nil]
    split
    · next hall => exact ((List.takeWhile_prefix _).eq_of_length hall).symm
    · rfl
  have hline : (a ++ b.take offset).count '\n' + 1 =
      (b.take offset).count '\n' + 1 + a.count '\n' := by
    rw [List.count_append]
    omega
  rw [ofOffset, htake, hcolumn, hline]
  rfl

/-! ## joining trees -/

namespace Tree

/-- one tree behind another; a text at the end of the first and one at the start of the second
become one text -/
def join : Tree → Tree → Tree
  | [], b => b
  | [.text s], .text t :: rest => .text (s ++ t) :: rest
  | n :: a, b => n :: join a b

theorem cons_join (n : Node) (a b : Tree) : cons n (join a b) = join (cons n a) b := by
  cases n with
  | var name escaped => rfl
  | block name inverted children => rfl
  | inclusion name indent => rfl
  | text t =>
    cases t with
    | nil => rfl
    | cons c t =>
      -- a text looks at the node behind it only; `b` decides which one that is only where `a` is
      -- empty or one text
      match a with
      | [] => rcases b with - | ⟨- | - | - | -, b⟩ <;> rfl
      | .var name escaped :: a => rfl
      | .block name inverted children :: a => rfl
      | .inclusion name indent :: a => rfl
      | .text s :: m :: a => rfl
      | [.text s] =>
        cases b with
        | nil => rfl
        | cons m b =>
          cases m with
          | text u => exact congrArg (Node.text · :: b) (List.append_assoc (c :: t) s u).symm
          | var name escaped => rfl
          | block name inverted children => rfl
          | inclusion name indent => rfl

theorem foldr_cons_eq_join (nodes : List Node) (b : Tree) :
    nodes.foldr cons b = join (nodes.foldr cons []) b := by
  induction nodes with
  | nil => rfl
  | cons n nodes ih => rw [List.foldr_cons, ih, cons_join, List.foldr_cons]

end Tree

/-! ## nesting above other nodes -/

namespace Nest

/-- the blocks of `stack` and the nodes of the innermost one, above the nodes `base` -/
def raiseFrom (base : List Node) : List OpenBlock → List Node → Nest
  | [], nodes => ⟨[], nodes ++ base⟩
  | o :: stack, nodes =>
    let below := raiseFrom base stack o.before
    ⟨{ o with before := below.current } :: below.stack, nodes⟩

def raise (base : List Node) (b : Nest) : Nest := raiseFrom base b.stack b.current

variable (base : List Node)

theorem length_stack_raise (b : Nest) : (b.raise base).stack.length = b.stack.length := by
  have hfrom : ∀ stack nodes, (raiseFrom base stack nodes).stack.length = stack.length := by
    intro stack
    induction stack with
    | nil => exact fun _ => rfl
    | cons o stack ih => exact fun _ => congrArg (· + 1) (ih o.before)
  exact hfrom b.stack b.current

theorem raise_add (n : Node) (b : Nest) : (b.add n).raise base = (b.raise base).add n := by
  obtain ⟨stack, nodes⟩ := b
  cases stack <;> rfl

theorem enter_raise (name : Text) (inverted : Bool) (offset : Nat) (b : Nest) :
    (b.raise base).enter name inverted offset =
      (b.enter name inverted offset).map (raise base) := by
  rw [enter, enter, length_stack_raise]
  split <;> rfl

theorem leave_raise (name : Text) (offset : Nat) (b : Nest) :
    (b.raise base).leave name offset = (b.leave name offset).map (raise base) := by
  obtain ⟨stack, nodes⟩ := b
  cases stack with
  | nil => rfl
  | cons o stack =>
    by_cases hname : o.name = name
    · simp only [leave, raise, raiseFrom, if_pos hname]
      exact congrArg Except.ok (raise_add base _ ⟨stack, o.before⟩).symm
    · simp only [leave, raise, raiseFrom, if_neg hname]
      rfl

theorem step_raise (b : Nest) (t : Token) :
    (b.raise base).step t = (b.step t).map (raise base) := by
  cases t with
  | text t => exact congrArg Except.ok (raise_add base _ b).symm
  | tag t indent =>
    obtain ⟨kind, content, offset⟩ := t
    cases kind with
    | var escaped => exact congrArg Except.ok (raise_add base _ b).symm
    | block inverted => exact enter_raise base content inverted offset b
    | close => exact leave_raise base content offset b
    | inclusion => exact congrArg Except.ok (raise_add base _ b).symm
    | comment => rfl
    | delims => rfl

theorem run_raise (b : Nest) (ts : List Token) :
    (b.raise base).run ts = (b.run ts).map (raise base) := by
  induction ts generalizing b with
  | nil => rfl
  | cons t ts ih =>
    rw [run, run, step_raise]
    cases b.step t with
    | error f => rfl
    | ok b' => exact ih b'

theorem finish_raise (b : Nest) : (b.raise base).finish =
    b.finish.map fun tree => base.reverse.foldr Tree.cons tree := by
  obtain ⟨stack, nodes⟩ := b
  cases stack with
  | nil =>
    show Except.ok (Tree.ofReversed (nodes ++ base)) = Except.ok _
    rw [Tree.ofReversed_eq_foldr, List.reverse_append, List.foldr_append,
      ← Tree.ofReversed_eq_foldr]
  | cons o stack => rfl

end Nest

/-! ## parsing -/

/-- tokens behind tokens that are nested by themselves -/
theorem Tree.ofTokens_append {ts : List Token} {tree : Tree} (h : ofTokens ts = .ok tree)
    (us : List Token) : ofTokens (ts ++ us) = (ofTokens us).map (tree.join ·) := by
  obtain ⟨base, hbase, rfl⟩ := exists_run_of_ofTokens h
  have hrun : Nest.run ⟨[], base⟩ us = (Nest.empty.run us).map (Nest.raise base) :=
    Nest.run_raise base Nest.empty us
  rw [ofTokens, ofTokens, Nest.run_append, hbase]
  show (Nest.run ⟨[], base⟩ us).bind Nest.finish = _
  rw [hrun]
  cases Nest.empty.run us with
  | error f => rfl
  | ok b =>
    show (b.raise base).finish = b.finish.map _
    rw [Nest.finish_raise]
    congr 1
    funext n
    rw [foldr_cons_eq_join, ofReversed_eq_foldr]

theorem Tree.ofText_append {a : Text} {tree : Tree} (h : ofText a = .ok tree)
    (ha : Text.WholeLines a) (hdelims : Delims.atEnd? a = some .braces) (b : Text) :
    ofText (a ++ b) = moved (· + a.length) (tree.join ·) (ofText b) := by
  obtain ⟨ts, hts, htree⟩ := exists_tokens_of_ofText h
  rw [ofText, ofText, Token.ofText_append hts ha hdelims]
  cases Token.ofText b with
  | error f => rfl
  | ok us =>
    show ofTokens (ts ++ us.map (Token.move id (· + a.length))) = moved _ _ (ofTokens us)
    rw [ofTokens_append htree, ofTokens_move .id, funext respell_id]
    cases ofTokens us <;> rfl

/-- **Parsing goes on behind complete lines.**  A text that parses is empty or ends with a line
feed, and the braces are in force at its end.  Then any text put behind it is parsed as if it stood
alone: its nodes are joined to those of the first one, or its fault is reported, as many lines
further down as the first text has and in the same column. -/
theorem parse_append {a : Text} {tree : Tree} (h : parse a = .ok tree)
    (hlines : a = [] ∨ a.getLast? = some '\n') (hdelims : Delims.atEnd? a = some .braces)
    (b : Text) :
    (∀ tree', parse b = .ok tree' → parse (a ++ b) = .ok (tree.join tree')) ∧
    ∀ e, parse b = .error e → parse (a ++ b) =
      .error ⟨e.cause, ⟨e.position.line + a.count '\n', e.position.column⟩⟩ := by
  have ha : Text.WholeLines a := by
    rcases hlines with rfl | hlast
    · exact .inl rfl
    · refine .inr ?_
      rw [Text.endsLine, hlast]
      rfl
  have happend := Tree.ofText_append (parse_eq_ok_iff.1 h) ha hdelims b
  constructor
  · intro tree' hb
    rw [parse_eq_ok_iff] at hb
    rw [parse_eq_ok_iff, happend, hb]
    rfl
  · intro e hb
    obtain ⟨f, hf, rfl⟩ := parse_eq_error_iff.1 hb
    have hposition := Position.ofOffset_append ha b f.offset
    refine parse_eq_error_iff.2 ⟨f.move (· + a.length), ?_, ?_⟩
    · rw [happend, hf]
      rfl
    · exact congrArg (ParseError.mk f.cause) hposition

/-- complete lines, with a block on lines of its own between two changes of the delimiters -/
def preface : Text := "{{=<% %>=}}\n<%#s%>\nx\n<%/s%>\n<%={{ }}=%>\ny\n".toList

def prefaceTree : Tree :=
  [.block (.dotted ['s'] []) false [.text ['x', '\n']], .text ['y', '\n']]

theorem parse_append_preface :
    parse preface = .ok prefaceTree ∧ preface.getLast? = some '\n' ∧
    Delims.atEnd? preface = some .braces ∧
    parse (preface ++ "z{{v}}".toList) =
      .ok [.block (.dotted ['s'] []) false [.text ['x', '\n']], .text "y\nz".toList,
        .var (.dotted ['v'] []) true] ∧
    parse (preface ++ "\n z{{/s}}".toList) = .error ⟨.unopened ['s'], ⟨8, 3⟩⟩ := by
  have hparse : parse preface = .ok prefaceTree := parse_eq_ok_iff.2 (by with_unfolding_all rfl)
  have hlast : preface.getLast? = some '\n' := by rfl
  have hdelims : Delims.atEnd? preface = some .braces := by with_unfolding_all rfl
  have hgood : parse "z{{v}}".toList = .ok [.text ['z'], .var (.dotted ['v'] []) true] :=
    parse_eq_ok_iff.2 (by with_unfolding_all rfl)
  have hbad : parse "\n z{{/s}}".toList = .error ⟨.unopened ['s'], ⟨2, 3⟩⟩ :=
    parse_eq_error_iff.2 ⟨⟨.unopened ['s'], 3⟩, by with_unfolding_all rfl, by rfl⟩
  refine ⟨hparse, hlast, hdelims, ?_, ?_⟩
  · exact (parse_append hparse (.inr hlast) hdelims _).1 _ hgood
  · exact (parse_append hparse (.inr hlast) hdelims _).2 _ hbad

end Mustache
