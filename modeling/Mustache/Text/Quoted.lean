import Mustache.Text.Blank
import Mustache.Text.DefaultIgnorable
import Mustache.Text.GraphemeExtend
import Mustache.Text.Graphic

/-!
# Quoted text

A text between double quotes, on one line, in which no character hides: quotes and backslashes
get a backslash, the common controls their letters, and every other character that cannot be told
by its looks is written as its code point, `\u{7f}`.
-/

namespace Mustache.Text

/-- The character can be told by its looks: it has some, they are not those of another blank than
the space, a font may not leave them out, and they do not merge with the character before it. -/
def isDistinct (c : Char) : Bool :=
  c == ' ' || (isGraphic c && !isBlank c && !isDefaultIgnorable c && !isGraphemeExtend c)

def hexDigits (n : Nat) : Text := Nat.toDigits 16 n

def quoteChar (c : Char) : Text :=
  if c = '"' then "\\\"".toList
  else if c = '\\' then "\\\\".toList
  else if c = '\n' then "\\n".toList
  else if c = '\t' then "\\t".toList
  else if c = '\r' then "\\r".toList
  else if c = '\x00' then "\\0".toList
  else if isDistinct c then [c]
  else "\\u\x7b".toList ++ hexDigits c.toNat ++ ['\x7d']

def quote (s : Text) : Text := '"' :: s.flatMap quoteChar ++ ['"']

end Mustache.Text
