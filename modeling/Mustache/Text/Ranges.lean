/-!
# Ranges of characters

A set of characters, written as closed ranges of code points.

* `Ranges.has rs c`   a range of `rs` holds `c`
* `Ranges.apart rs`   the ranges hold something, ascend, and leave a gap between one and the next
* `Ranges.size rs`    how many code points ranges hold that are apart
-/

namespace Mustache.Text

abbrev Ranges := List (Nat × Nat)

namespace Ranges

def has (rs : Ranges) (c : Char) : Bool :=
  rs.any fun r => r.1 ≤ c.toNat && c.toNat ≤ r.2

def apart : Ranges → Bool
  | [] => true
  | [r] => r.1 ≤ r.2
  | r :: s :: rest => r.1 ≤ r.2 && r.2 + 1 < s.1 && apart (s :: rest)

def size (rs : Ranges) : Nat := rs.foldr (fun r n => r.2 + 1 - r.1 + n) 0

end Ranges
end Mustache.Text
