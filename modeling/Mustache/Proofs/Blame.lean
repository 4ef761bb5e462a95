import Mathlib.Data.List.Basic
import Mustache.Proofs.Nesting
import Mustache.Proofs.TagStarts

/-!
# The guilty tag

A fault is reported by a line and a column.  Only one place of the text has them, a tag starts
there, and this tag is the guilty one.

* `Position.Of`            the position of a place, by the text before it; `Position.Of.offset_eq`
* `Opened`                 the tags of the blocks that tokens leave open
* `Nest.exists_of_run_eq_error`   the token at which nesting fails
* `Guilty`                 what a cause says of the tag at an offset
* `guilty_of_parse_eq_error`  a reported fault
-/

namespace Mustache

/-! ## positions -/

/-- a text is cut behind its last line feed -/
theorem Text.exists_wholeLines_append (s : Text) :
    ∃ whole part, s = whole ++ part ∧ WholeLines whole ∧ '\n' ∉ part := by
  induction s using List.reverseRecOn with
  | nil => exact ⟨[], [], rfl, .inl rfl, List.not_mem_nil⟩
  | append_singleton s c ih =>
    by_cases hc : c = '\n'
    · refine ⟨s ++ [c], [], (List.append_nil _).symm, ?_, List.not_mem_nil⟩
      exact wholeLines_iff.2 (by simp [hc])
    · obtain ⟨whole, part, rfl, hwhole, hpart⟩ := ih
      refine ⟨whole, part ++ [c], List.append_assoc .., hwhole, ?_⟩
      simp [hpart, Ne.symm hc]

namespace Position
variable {source : Text} {offset offset' : Nat} {p : Position}

/-- The position of the place at `offset`: lines are counted by the line feeds before it, columns by
the characters behind the last of them. -/
structure Of (source : Text) (offset : Nat) (p : Position) : Prop where
  line : p.line = 1 + (source.take offset).count '\n'
  column : ∃ whole part, source.take offset = whole ++ part ∧ Text.WholeLines whole ∧
    '\n' ∉ part ∧ p.column = 1 + part.length

theorem length_takeWhile {whole part : Text} (hwhole : Text.WholeLines whole)
    (hpart : '\n' ∉ part) :
    ((whole ++ part).reverse.takeWhile (· ≠ '\n')).length = part.length := by
  have hkeep : ∀ c ∈ part.reverse, decide (c ≠ '\n') = true := by
    intro c hc
    apply decide_eq_true
    rintro rfl
    exact hpart (List.mem_reverse.1 hc)
  rw [List.reverse_append, List.takeWhile_append_of_pos hkeep, hwhole.takeWhile_reverse,
    List.append_nil, List.length_reverse]

theorem of_iff : Of source offset p ↔ ofOffset source offset = p := by
  constructor
  · rintro ⟨hline, whole, part, htake, hwhole, hpart, hcolumn⟩
    obtain ⟨line, column⟩ := p
    obtain rfl : line = _ := hline
    obtain rfl : column = _ := hcolumn
    rw [ofOffset, htake, length_takeWhile hwhole hpart, Nat.add_comm 1, Nat.add_comm 1]
  · rintro rfl
    obtain ⟨whole, part, htake, hwhole, hpart⟩ :=
      Text.exists_wholeLines_append (source.take offset)
    refine ⟨Nat.add_comm .., whole, part, htake, hwhole, hpart, ?_⟩
    show ((source.take offset).reverse.takeWhile (· ≠ '\n')).length + 1 = _
    rw [htake, length_takeWhile hwhole hpart, Nat.add_comm]

/-- the place further to the right has another position -/
theorem Of.offset_le (h : Of source offset p) (h' : Of source offset' p)
    (hle : offset' ≤ source.length) : offset' ≤ offset := by
  rcases Nat.le_total offset' offset with hoff | hoff
  · exact hoff
  obtain ⟨hline, whole, part, htake, hwhole, hpart, hcolumn⟩ := h
  obtain ⟨hline', whole', part', htake', hwhole', hpart', hcolumn'⟩ := h'
  -- the text between the two places; a line feed in it would count as a line
  have hmid : source.take offset' = source.take offset ++
      (source.drop offset).take (offset' - offset) := by
    rw [← List.take_add, Nat.add_sub_cancel' hoff]
  have hlength : ((source.drop offset).take (offset' - offset)).length = offset' - offset := by
    rw [List.length_take, List.length_drop]
    omega
  generalize (source.drop offset).take (offset' - offset) = mid at hmid hlength
  have hno : '\n' ∉ mid := by
    rw [hmid, List.count_append] at hline'
    exact List.count_eq_zero.1 (by omega)
  have hopen : '\n' ∉ part ++ mid := by
    rw [List.mem_append, not_or]
    exact ⟨hpart, hno⟩
  have hcount := length_takeWhile hwhole hopen
  rw [← List.append_assoc, ← htake, ← hmid, htake', length_takeWhile hwhole' hpart',
    List.length_append] at hcount
  omega

/-- two places of a text have different positions -/
theorem Of.offset_eq (h : Of source offset p) (h' : Of source offset' p)
    (hle : offset ≤ source.length) (hle' : offset' ≤ source.length) : offset' = offset :=
  Nat.le_antisymm (h.offset_le h' hle') (h'.offset_le h hle)

end Position

/-! ## open blocks -/

/-- The tokens leave the blocks of `tags` open, the innermost first: behind each of these tags the
tokens are nested but for the next one. -/
inductive Opened : List Tag → List Token → Prop where
  | nested {ts : List Token} : Nested ts → Opened [] ts
  | block {t : Tag} {tags : List Tag} {ts inner : List Token} {inverted : Bool}
      {indent : Option Text} : t.kind = .block inverted → Opened tags ts → Nested inner →
      Opened (t :: tags) (ts ++ .tag t indent :: inner)

def OpenBlock.tag (o : OpenBlock) : Tag := ⟨.block o.inverted, o.name, o.offset⟩

namespace Nest

theorem Pending.opened {stack : List OpenBlock} {ts : List Token} (h : Pending stack ts) :
    Opened (stack.map OpenBlock.tag) ts := by
  induction h with
  | flat hts => exact .nested hts
  | block _ _ hinner ih => exact .block rfl ih hinner

/-- nesting fails at one token; those before it could be nested -/
theorem exists_of_run_eq_error {b : Nest} {ts : List Token} {f : Fault}
    (h : b.run ts = .error f) : ∃ pre t post b',
      ts = pre ++ t :: post ∧ b.run pre = .ok b' ∧ b'.step t = .error f := by
  induction ts generalizing b with
  | nil => cases h
  | cons t ts ih =>
    rw [run] at h
    split at h
    · next f' hstep =>
      cases h
      exact ⟨[], t, ts, b, rfl, rfl, hstep⟩
    · next b₁ hstep =>
      obtain ⟨pre, t', post, b', rfl, hrun, hfail⟩ := ih h
      refine ⟨t :: pre, t', post, b', rfl, ?_, hfail⟩
      rw [run_cons hstep, hrun]

end Nest

/-! ## guilt -/

/-- What a cause says of the tag at an offset, where `d` is in force and `after` stands behind the
opening delimiter.  Faults of a single tag say what is wrong with its text.  Faults of nesting name
the tag among the tokens, and say which blocks are open in front of it. -/
inductive Guilty (source : Text) (d : Delims) (after : Text) : Nat → Cause → Prop where
  | unclosedTag {offset : Nat} :
      d.inner? after = none →
      Guilty source d after offset (.unclosedTag (d.terminator (Sigil.read after).1))
  | badDelims {offset : Nat} {inner rest : Text} :
      TagKind.ofText after = .delims → d.inner? after = some (inner, rest) →
      Delims.ofContent? (Text.trim inner) = none →
      Guilty source d after offset (.badDelims (Text.trim inner))
  | emptyName {offset : Nat} {inner rest : Text} :
      TagKind.ofText after ≠ .delims → TagKind.ofText after ≠ .comment →
      d.inner? after = some (inner, rest) → Text.trim inner = [] →
      Guilty source d after offset .emptyName
  | tooDeep {t : Tag} {indent : Option Text} {pre post : List Token} {tags : List Tag}
      {inverted : Bool} :
      TagStarts.Reads source d after t → t.kind = .block inverted →
      Token.ofText source = .ok (pre ++ .tag t indent :: post) →
      Opened tags pre → tags.length = 512 → Token.FitFrom 0 pre →
      Guilty source d after t.offset .tooDeep
  | unopened {t : Tag} {indent : Option Text} {pre post : List Token} :
      TagStarts.Reads source d after t → t.kind = .close →
      Token.ofText source = .ok (pre ++ .tag t indent :: post) →
      Opened [] pre →
      Guilty source d after t.offset (.unopened t.content)
  | mismatched {t opening : Tag} {indent : Option Text} {pre post : List Token} {tags : List Tag} :
      TagStarts.Reads source d after t → t.kind = .close →
      Token.ofText source = .ok (pre ++ .tag t indent :: post) →
      Opened (opening :: tags) pre → opening.content ≠ t.content →
      Guilty source d after t.offset (.mismatched opening.content t.content)
  | unclosedBlock {t : Tag} {tags : List Tag} {ts : List Token} :
      TagStarts.Reads source d after t →
      Token.ofText source = .ok ts → Opened (t :: tags) ts →
      Guilty source d after t.offset (.unclosedBlock t.content)

namespace Guilty
variable {source : Text}

/-- the tag of a fault of scanning -/
theorem of_readTag {d : Delims} {after : Text} {cause : Cause} (offset : Nat)
    (h : readTag d after = .error cause) : Guilty source d after offset cause := by
  rcases readTag_eq_error h with ⟨hnone, rfl⟩ | ⟨inner, rest, hsome, hafter⟩
  · exact .unclosedTag hnone
  · rcases Delims.after_eq_error hafter with ⟨hkind, hbad, rfl⟩ | ⟨hdelims, hcomment, hempty, rfl⟩
    · exact .badDelims hkind hsome hbad
    · exact .emptyName hdelims hcomment hsome hempty

/-- the tag of a token that cannot be nested -/
theorem of_step {pre post : List Token} {token : Token} {b : Nest} {f : Fault}
    (htext : Token.ofText source = .ok (pre ++ token :: post)) (hrun : Nest.empty.run pre = .ok b)
    (hstep : b.step token = .error f) :
    ∃ d after, TagStarts source d f.offset after ∧ Guilty source d after f.offset f.cause := by
  have hopened := (Nest.pending_of_run hrun).opened
  cases token with
  | text t => cases hstep
  | tag t indent =>
    obtain ⟨d, after, hreads⟩ := Token.reads_of_mem htext
      (List.mem_append_right pre List.mem_cons_self)
    obtain ⟨kind, content, offset⟩ := t
    refine ⟨d, after, ?_⟩
    cases kind with
    | block inverted =>
      change b.enter content inverted offset = .error f at hstep
      unfold Nest.enter at hstep
      split at hstep
      · next hfull =>
        cases hstep
        have hlength : (b.stack.map OpenBlock.tag).length = 512 := by
          rw [List.length_map]
          exact Nat.le_antisymm (Nest.pending_of_run hrun).length_le hfull
        exact ⟨hreads.1, .tooDeep hreads rfl htext hopened hlength (Nest.fitFrom_of_run hrun)⟩
      · cases hstep
    | close =>
      change b.leave content offset = .error f at hstep
      unfold Nest.leave at hstep
      split at hstep
      · next hstack =>
        cases hstep
        rw [hstack] at hopened
        exact ⟨hreads.1, .unopened hreads rfl htext hopened⟩
      · next o stack hstack =>
        split at hstep
        · cases hstep
        · next hname =>
          cases hstep
          rw [hstack] at hopened
          exact ⟨hreads.1, .mismatched hreads rfl htext hopened hname⟩
    | var | inclusion | comment | delims => cases hstep

/-- the tag of a block that is open at the end -/
theorem of_finish {ts : List Token} {b : Nest} {f : Fault}
    (htext : Token.ofText source = .ok ts) (hrun : Nest.empty.run ts = .ok b)
    (hfinish : b.finish = .error f) :
    ∃ d after, TagStarts source d f.offset after ∧ Guilty source d after f.offset f.cause := by
  have hopened := (Nest.pending_of_run hrun).opened
  unfold Nest.finish at hfinish
  split at hfinish
  · cases hfinish
  · next o stack hstack =>
    cases hfinish
    rw [hstack] at hopened
    have hmem : ∃ indent, .tag o.tag indent ∈ ts := by
      cases hopened with
      | @block _ _ pre inner _ indent _ _ _ =>
        exact ⟨indent, List.mem_append_right pre List.mem_cons_self⟩
    obtain ⟨indent, hmem⟩ := hmem
    obtain ⟨d, after, hreads⟩ := Token.reads_of_mem htext hmem
    exact ⟨d, after, hreads.1, .unclosedBlock hreads htext hopened⟩

end Guilty

/-- every fault of a text lies where its guilty tag starts -/
theorem guilty_of_ofText {source : Text} {f : Fault} (h : Tree.ofText source = .error f) :
    ∃ d after, TagStarts source d f.offset after ∧ Guilty source d after f.offset f.cause := by
  rw [Tree.ofText] at h
  cases htext : Token.ofText source with
  | error f' =>
    rw [htext] at h
    cases h
    rw [Token.ofText] at htext
    split at htext
    · next f' hscan =>
      cases htext
      obtain ⟨d, after, hstarts, hread⟩ := Scanned.start.starts_of_error hscan
      exact ⟨d, after, hstarts, .of_readTag _ hread⟩
    · cases htext
  | ok ts =>
    rw [htext] at h
    change Tree.ofTokens ts = .error f at h
    rw [Tree.ofTokens] at h
    cases hrun : Nest.empty.run ts with
    | error f' =>
      rw [hrun] at h
      cases h
      obtain ⟨pre, token, post, b, rfl, hpre, hstep⟩ := Nest.exists_of_run_eq_error hrun
      exact Guilty.of_step htext hpre hstep
    | ok b =>
      rw [hrun] at h
      exact Guilty.of_finish htext hrun h

/-- **A reported fault points at the guilty tag.**  There is one offset of the text with the
reported position.  The opening delimiter in force there stands at it, a tag starts there, and this
tag is guilty of the cause. -/
theorem guilty_of_parse_eq_error {source : Text} {e : ParseError} (h : parse source = .error e) :
    ∃ offset d after, TagStarts source d offset after ∧
      source.drop offset = d.opening ++ after ∧ offset < source.length ∧
      (∀ o ≤ source.length, Position.Of source o e.position ↔ o = offset) ∧
      Guilty source d after offset e.cause := by
  obtain ⟨f, hf, rfl⟩ := parse_eq_error_iff.1 h
  obtain ⟨d, after, hstarts, hguilty⟩ := guilty_of_ofText hf
  have hlt := hstarts.lt_length
  have hof : Position.Of source f.offset (f.locate source).position := Position.of_iff.2 rfl
  refine ⟨f.offset, d, after, hstarts, hstarts.drop_eq, hlt, fun o ho => ⟨?_, ?_⟩, hguilty⟩
  · intro h'
    exact hof.offset_eq h' hlt.le ho
  · rintro rfl
    exact hof

/-- other delimiters, and characters of more than one byte in front of the guilty tag -/
def mixedUp : Text := "é {{#a}}\n{{=<% %>=}}\n  ü<%/b%> \x7b\x7bx".toList

theorem guilty_of_parse_eq_error_mixedUp :
    parse mixedUp = .error ⟨.mismatched ['a'] ['b'], ⟨3, 4⟩⟩ ∧
    ∃ d after, TagStarts mixedUp d 24 after ∧ mixedUp.drop 24 = d.opening ++ after ∧
      (∀ o ≤ mixedUp.length, Position.Of mixedUp o ⟨3, 4⟩ ↔ o = 24) ∧
      Guilty mixedUp d after 24 (.mismatched ['a'] ['b']) := by
  have herror : parse mixedUp = .error ⟨.mismatched ['a'] ['b'], ⟨3, 4⟩⟩ :=
    parse_eq_error_iff.2 ⟨⟨.mismatched ['a'] ['b'], 24⟩, by with_unfolding_all rfl, by rfl⟩
  have hplace : Position.Of mixedUp 24 ⟨3, 4⟩ := Position.of_iff.2 (by rfl)
  obtain ⟨offset, d, after, hstarts, hdrop, -, honly, hguilty⟩ :=
    guilty_of_parse_eq_error herror
  obtain rfl : 24 = offset := (honly 24 (by decide)).1 hplace
  exact ⟨herror, d, after, hstarts, hdrop, honly, hguilty⟩

end Mustache
