import Mustache.Text.Digits
import Mustache.Text.Position

/-!
# Faults

What can be wrong with the text of a template: a cause, and the offset of the guilty tag.  Seven
causes exist; the first three are found while the text is cut into tags, the others while the
tags are nested.
-/

namespace Mustache

/-- how many blocks may be open at once -/
def maxNesting : Nat := 512

inductive Cause where
  /-- the closing delimiter of a tag is missing -/
  | unclosedTag (terminator : Text)
  /-- a delimiter tag does not hold two usable delimiters -/
  | badDelims (content : Text)
  /-- a tag that needs a name has none -/
  | emptyName
  /-- one block too many is open -/
  | tooDeep
  /-- a block is closed while none is open -/
  | unopened (name : Text)
  /-- a block is closed under another name -/
  | mismatched (opened closed : Text)
  /-- a block is open at the end -/
  | unclosedBlock (name : Text)
  deriving DecidableEq, Repr

def Cause.message : Cause → Text
  | unclosedTag terminator => "Unclosed tag: expected '".toList ++ terminator ++ ['\'']
  | badDelims content => "Invalid delimiter tag '".toList ++ content ++ ['\'']
  | emptyName => "Empty tag name".toList
  | tooDeep => "Sections nested deeper than ".toList ++ Text.ofNat maxNesting
  | unopened name => "Unopened section '".toList ++ name ++ ['\'']
  | mismatched opened closed =>
    "Unclosed section '".toList ++ opened ++ "' (found closing tag for '".toList ++ closed ++
      "')".toList
  | unclosedBlock name => "Unclosed section '".toList ++ name ++ ['\'']

structure Fault where
  cause : Cause
  offset : Nat
  deriving DecidableEq, Repr

/-- a fault as it is reported: by the position of the guilty tag -/
structure ParseError where
  cause : Cause
  position : Position
  deriving DecidableEq, Repr

def Fault.locate (source : Text) (f : Fault) : ParseError :=
  ⟨f.cause, Position.ofOffset source f.offset⟩

def ParseError.message (e : ParseError) : Text :=
  "Parse error at line ".toList ++ Text.ofNat e.position.line ++ ", column ".toList ++
    Text.ofNat e.position.column ++ ": ".toList ++ e.cause.message

end Mustache
