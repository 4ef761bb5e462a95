import Mustache.Text.Blank

/-!
# Positions

An offset counts the characters before a place of a text; a position gives the same place as a
line and a column, both counted from 1.  Lines are counted by line feeds only.
-/

namespace Mustache

structure Position where
  line : Nat
  column : Nat
  deriving DecidableEq, Repr

/-- the position of the character at an offset of a text -/
def Position.ofOffset (source : Text) (offset : Nat) : Position :=
  let before := source.take offset
  ⟨before.count '\n' + 1, (before.reverse.takeWhile (· ≠ '\n')).length + 1⟩

end Mustache
