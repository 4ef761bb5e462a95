import Mustache.Fault
import Mustache.Text.Search

/-!
# Tags

A tag stands between an opening and a closing delimiter.  The character after the opening
delimiter, if it is one of the eight sigils, says what kind of tag it is; without a sigil the tag
is an escaped variable.

* `Delims`      a pair of delimiters: words without blanks and without `=`
* `Sigil`       the eight sigils, the kind each one makes, the terminator it asks for
* `readTag`     the tag behind an opening delimiter
-/

namespace Mustache

/-! ## delimiters -/

def isDelimChar (c : Char) : Bool := !Text.isBlank c && c != '='

/-- what may serve as a delimiter -/
def IsDelim (w : Text) : Prop := w ≠ [] ∧ w.all isDelimChar = true

instance (w : Text) : Decidable (IsDelim w) :=
  inferInstanceAs (Decidable (w ≠ [] ∧ w.all isDelimChar = true))

theorem isBlank_of_isDelim {w : Text} (h : IsDelim w) : ∀ c ∈ w, Text.isBlank c = false := by
  intro c hc
  have := List.all_eq_true.1 h.2 c hc
  rw [isDelimChar, Bool.and_eq_true, Bool.not_eq_true'] at this
  exact this.1

theorem blank_notMem_of_isDelim {w : Text} (h : IsDelim w) {c : Char} (hc : Text.isBlank c = true) :
    c ∉ w := by
  intro hmem
  exact absurd hc (Bool.eq_false_iff.1 (isBlank_of_isDelim h c hmem))

theorem equals_notMem_of_isDelim {w : Text} (h : IsDelim w) : '=' ∉ w := by
  intro hc
  have := List.all_eq_true.1 h.2 _ hc
  revert this
  decide

structure Delims where
  opening : Text
  closing : Text
  opening_isDelim : IsDelim opening
  closing_isDelim : IsDelim closing
  deriving DecidableEq

namespace Delims

/-- the delimiters at the start of a template -/
def braces : Delims := ⟨['{', '{'], ['}', '}'], by decide, by decide⟩

theorem length_opening_pos (d : Delims) : 0 < d.opening.length :=
  List.length_pos_iff.2 d.opening_isDelim.1

/-- the pair named by the content of a delimiter tag -/
def ofContent? (content : Text) : Option Delims :=
  match Text.words content with
  | [o, c] => if h : IsDelim o ∧ IsDelim c then some ⟨o, c, h.1, h.2⟩ else none
  | _ => none

end Delims

/-! ## kinds and sigils -/

inductive TagKind where
  | var (escaped : Bool)
  | block (inverted : Bool)
  | close
  | inclusion
  | comment
  | delims
  deriving DecidableEq, Repr

/-- every kind but a variable may be alone on its line -/
def TagKind.standsAlone : TagKind → Bool
  | var _ => false
  | _ => true

inductive Sigil where
  | brace
  | ampersand
  | hash
  | caret
  | slash
  | angle
  | bang
  | equals
  deriving DecidableEq, Repr

namespace Sigil

def toChar : Sigil → Char
  | brace => '{'
  | ampersand => '&'
  | hash => '#'
  | caret => '^'
  | slash => '/'
  | angle => '>'
  | bang => '!'
  | equals => '='

def ofChar? : Char → Option Sigil
  | '{' => some brace
  | '&' => some ampersand
  | '#' => some hash
  | '^' => some caret
  | '/' => some slash
  | '>' => some angle
  | '!' => some bang
  | '=' => some equals
  | _ => none

theorem ofChar?_toChar (s : Sigil) : ofChar? s.toChar = some s := by cases s <;> rfl

theorem toChar_of_ofChar? {c : Char} {s : Sigil} (h : ofChar? c = some s) : s.toChar = c := by
  unfold ofChar? at h
  split at h <;> first | (cases h; rfl) | contradiction

def kind : Sigil → TagKind
  | brace => .var false
  | ampersand => .var false
  | hash => .block false
  | caret => .block true
  | slash => .close
  | angle => .inclusion
  | bang => .comment
  | equals => .delims

/-- what has to stand before the closing delimiter -/
def closer : Sigil → Text
  | brace => ['}']
  | equals => ['=']
  | _ => []

/-- the sigil at the front of a text, and what follows it -/
def read : Text → Option Sigil × Text
  | [] => (none, [])
  | c :: s =>
    match ofChar? c with
    | some g => (some g, s)
    | none => (none, c :: s)

/-- a sigil, or none, as text -/
def text (g : Option Sigil) : Text := (g.map toChar).toList

theorem text_read (s : Text) : text (read s).1 ++ (read s).2 = s := by
  cases s with
  | nil => rfl
  | cons c s =>
    rw [read]
    split
    · next g hg => simp [text, toChar_of_ofChar? hg]
    · rfl

theorem read_append {g : Option Sigil} {s : Text} (h : g = none → ∀ c ∈ s.head?, ofChar? c = none) :
    read (text g ++ s) = (g, s) := by
  cases g with
  | some g =>
    show read (g.toChar :: s) = _
    rw [read, ofChar?_toChar]
  | none =>
    cases s with
    | nil => rfl
    | cons c s =>
      show read (c :: s) = _
      rw [read, h rfl c rfl]

/-- more text behind a text that is not empty changes nothing -/
theorem read_append_right {s : Text} (hs : s ≠ []) (r : Text) :
    read (s ++ r) = ((read s).1, (read s).2 ++ r) := by
  cases s with
  | nil => exact absurd rfl hs
  | cons c s =>
    rw [List.cons_append, read, read]
    split <;> rfl

end Sigil

/-- the kind of a tag with this sigil, or with none -/
def TagKind.ofSigil (g : Option Sigil) : TagKind := (g.map Sigil.kind).getD (.var true)

/-- the text that ends a tag with this sigil, or with none -/
def Delims.terminator (d : Delims) (g : Option Sigil) : Text :=
  (g.map Sigil.closer).getD [] ++ d.closing

/-! ## one tag -/

structure Tag where
  kind : TagKind
  content : Text
  offset : Nat
  deriving DecidableEq, Repr

/-- a tag read behind an opening delimiter -/
structure TagReading where
  kind : TagKind
  /-- the text between sigil and terminator, without the blanks at its ends -/
  content : Text
  /-- all that was read: sigil, inner text and terminator -/
  raw : Text
  /-- the delimiters in force after the tag -/
  next : Delims
  rest : Text

/-- the delimiters in force after a tag, unless its content is unfit for its kind -/
def Delims.after (d : Delims) (kind : TagKind) (content : Text) : Except Cause Delims :=
  match kind with
  | .comment => .ok d
  | .delims =>
    match ofContent? content with
    | some d' => .ok d'
    | none => .error (.badDelims content)
  | _ => if content = [] then .error .emptyName else .ok d

/-- the tag behind an opening delimiter; it ends at the first terminator after its sigil -/
def readTag (d : Delims) (s : Text) : Except Cause TagReading :=
  let (g, body) := Sigil.read s
  let terminator := d.terminator g
  match Text.cut? terminator body with
  | none => .error (.unclosedTag terminator)
  | some (inner, rest) =>
    let kind := TagKind.ofSigil g
    let content := Text.trim inner
    match d.after kind content with
    | .error cause => .error cause
    | .ok next => .ok ⟨kind, content, Sigil.text g ++ inner ++ terminator, next, rest⟩

/-- what a reading is made of -/
theorem readTag_eq_ok {d : Delims} {s : Text} {r : TagReading} (h : readTag d s = .ok r) :
    ∃ inner, Text.cut? (d.terminator (Sigil.read s).1) (Sigil.read s).2 = some (inner, r.rest) ∧
      d.after r.kind r.content = .ok r.next ∧ r.kind = TagKind.ofSigil (Sigil.read s).1 ∧
      r.content = Text.trim inner ∧
      r.raw = Sigil.text (Sigil.read s).1 ++ inner ++ d.terminator (Sigil.read s).1 := by
  unfold readTag at h
  simp only at h
  split at h
  · contradiction
  · next inner rest hc =>
    split at h
    · contradiction
    · next next hafter =>
      cases h
      exact ⟨inner, hc, hafter, rfl, rfl, rfl⟩

/-- a reading and its rest make up the text it was read from -/
theorem raw_append_rest {d : Delims} {s : Text} {r : TagReading} (h : readTag d s = .ok r) :
    s = r.raw ++ r.rest := by
  obtain ⟨inner, hcut, -, -, -, hraw⟩ := readTag_eq_ok h
  have e := Sigil.text_read s
  rw [Text.cut?_eq_some hcut] at e
  simpa [hraw] using e.symm

/-- a tag ends with the closing delimiter -/
theorem exists_raw_eq {d : Delims} {s : Text} {r : TagReading} (h : readTag d s = .ok r) :
    ∃ u, r.raw = u ++ d.closing := by
  obtain ⟨inner, -, -, -, -, hraw⟩ := readTag_eq_ok h
  rw [hraw, Delims.terminator, ← List.append_assoc]
  exact ⟨_, rfl⟩

/-- a tag is read up to its terminator, whatever follows -/
theorem readTag_append {d : Delims} {s : Text} {r : TagReading} (h : readTag d s = .ok r)
    (rest : Text) : readTag d (s ++ rest) = .ok { r with rest := r.rest ++ rest } := by
  obtain ⟨inner, hcut, hafter, hkind, hcontent, hraw⟩ := readTag_eq_ok h
  have hs : s ≠ [] := by
    obtain ⟨u, hu⟩ := exists_raw_eq h
    rintro rfl
    have hnil := raw_append_rest h
    simp [hu, d.closing_isDelim.1] at hnil
  have hcut' := Text.cut?_append hcut rest
  unfold readTag
  rw [Sigil.read_append_right hs]
  simp only [hcut', ← hkind, ← hcontent, hafter, hraw]

end Mustache
