import Mustache.Segment

/-!
# Tokens

Tokens are what is left of the segments once the lines have been looked at.  A line that holds one
tag, not a variable, and otherwise only spaces, tabs, carriage returns and its line feed exists for
the tag alone: nothing but the tag is left of it, and the blanks in front of the tag become its
indentation.  Every other line is left as it is.

* `lineTokens`       the rule for one line
* `Token.ofSegments` the rule for all lines, in one pass with the line so far at hand
-/

namespace Mustache

inductive Token where
  | text (t : Text)
  /-- a tag, with the blanks that stood in front of it on a line of its own -/
  | tag (t : Tag) (indent : Option Text)
  deriving DecidableEq, Repr

/-- the blanks a tag alone on its line may have around it -/
def isLineBlank (c : Char) : Bool := c == ' ' || c == '\t' || c == '\r' || c == '\n'

namespace Segment

/-- no literal text but blanks -/
def isIdle : Segment → Bool
  | literal t => t.all isLineBlank
  | tag _ _ => true

def token : Segment → Token
  | literal t => .text t
  | tag _ t => .tag t none

end Segment

/-- the one tag of a line that exists for it alone -/
def standalone? (line : List Segment) : Option Tag :=
  match line.filterMap Segment.tag? with
  | [t] => if t.kind.standsAlone && line.all Segment.isIdle then some t else none
  | _ => none

/-- the literal text in front of the first tag of a line -/
def leadingText (line : List Segment) : Text :=
  (line.takeWhile Segment.isLiteral).flatMap Segment.text

def lineTokens (line : List Segment) : List Token :=
  match standalone? line with
  | some t => [.tag t (leadingText line).nonempty?]
  | none => line.map Segment.token

/-- the tokens from here on; `line` holds the segments since the last line end, the latest first -/
def Token.ofSegmentsFrom (line : List Segment) : List Segment → List Token
  | [] => lineTokens line.reverse
  | s :: segs =>
    if s.endsLine then lineTokens (s :: line).reverse ++ ofSegmentsFrom [] segs
    else ofSegmentsFrom (s :: line) segs

def Token.ofSegments (segs : List Segment) : List Token := ofSegmentsFrom [] segs

/-- the tokens of a text under the delimiters every template starts with -/
def Token.ofText (source : Text) : Except Fault (List Token) :=
  match Segment.scan .braces 0 source with
  | .error f => .error f
  | .ok segs => .ok (ofSegments segs)

theorem Token.exists_scan_of_ofText {source : Text} {ts : List Token} (h : ofText source = .ok ts) :
    ∃ segs, Segment.scan .braces 0 source = .ok segs ∧ ts = ofSegments segs := by
  rw [ofText] at h
  split at h
  · cases h
  · next segs hscan =>
    cases h
    exact ⟨segs, hscan, rfl⟩

end Mustache
