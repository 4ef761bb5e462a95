import Mustache.Text.Blank

/-!
# Decimal digits

* `ofNat n`          the decimal digits of `n`
* `digits? s`        the number a non-empty text of digits stands for
* `index? s`         an index into a list: at most one plus sign, then digits, below 2^64
-/

namespace Mustache.Text

def ofNat (n : Nat) : Text := Nat.toDigits 10 n

def ofInt : Int → Text
  | .ofNat n => ofNat n
  | .negSucc n => '-' :: ofNat (n + 1)

def digitsValue (s : Text) : Nat := s.foldl (fun n c => 10 * n + (c.toNat - '0'.toNat)) 0

def digits? (s : Text) : Option Nat :=
  if s ≠ [] ∧ s.all Char.isDigit then some (digitsValue s) else none

/-- how many values a machine word has -/
def wordSize : Nat := Nat.pow 2 64

def index? (s : Text) : Option Nat :=
  let s := match s with
    | '+' :: r => r
    | _ => s
  match digits? s with
  | some n => if n < wordSize then some n else none
  | none => none

end Mustache.Text
