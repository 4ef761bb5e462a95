import Mustache.Number.Shortest
import Mustache.Text.Digits

/-!
# Numbers

A number is an integer or a binary64 number; `1` and `1.0` are two different numbers.

* `Number.ofLiteral?`  the number a literal stands for
* `Number.text`        a number as text
* `Number.numEq`       equality
-/

namespace Mustache

inductive Number where
  | int (i : Int)
  | binary (x : Binary64)
  deriving DecidableEq, Repr

/-! ## text -/

/-- the layout of binary64 numbers -/
structure DecimalLayout where
  /-- the decimal exponents written without an exponent part, the last one excluded -/
  positionalFrom : Int
  positionalTo : Int

/-- from 0.00001 up to, not including, 10^16 a number is written out, with a digit on each side of
the point; beyond, the exponent has a sign and a single digit has no point -/
def Number.layout : DecimalLayout := ⟨-5, 16⟩

namespace DecimalLayout

def zeros (n : Int) : Text := List.replicate n.toNat '0'

def positional (d : Text) (exponent : Int) : Text :=
  let whole := (d.length : Int) + exponent
  if 0 ≤ exponent then d ++ zeros exponent ++ ['.', '0']
  else if 0 < whole then d.take whole.toNat ++ '.' :: d.drop whole.toNat
  else '0' :: '.' :: zeros (-whole) ++ d

def scientific (d : Text) (top : Int) : Text :=
  let mantissa := match d with
    | c :: e :: r => c :: '.' :: e :: r
    | _ => d
  let sign := if top < 0 then '-' else '+'
  mantissa ++ 'e' :: sign :: Text.ofNat top.natAbs

def write (l : DecimalLayout) (x : Decimal) : Text :=
  let d := Text.ofNat x.digits
  let top := x.exponent + d.length - 1
  if l.positionalFrom ≤ top ∧ top < l.positionalTo then positional d x.exponent
  else scientific d top

end DecimalLayout

namespace Number

def text : Number → Text
  | int i => Text.ofInt i
  | binary x => (if x.negative then ['-'] else []) ++ layout.write x.shortest

def isZero : Number → Bool
  | int i => i == 0
  | binary x => x.isZero

/-- numerical equality within each of the two sorts, none across them -/
def numEq : Number → Number → Bool
  | int i, int j => i == j
  | binary x, binary y => x.numEq y
  | _, _ => false

/-! ## literals -/

/-- the digits at the front of a text, at least one -/
def digitRun? (s : Text) : Option (Text × Text) :=
  match s.takeWhile Char.isDigit with
  | [] => none
  | d => some (d, s.dropWhile Char.isDigit)

/-- the digits after a point; none when no point is there -/
def fraction? : Text → Option (Option Text × Text)
  | '.' :: s => (digitRun? s).map fun p => (some p.1, p.2)
  | s => some (none, s)

/-- the exponent part; none when no exponent is there -/
def exponent? : Text → Option (Option Int × Text)
  | [] => some (none, [])
  | c :: s =>
    if c = 'e' ∨ c = 'E' then
      let (negative, s) := match s with
        | '-' :: r => (true, r)
        | '+' :: r => (false, r)
        | _ => (false, s)
      (digitRun? s).map fun p =>
        let n : Int := Text.digitsValue p.1
        (some (if negative then -n else n), p.2)
    else some (none, c :: s)

/-- an integer within the range of the two kinds of machine words stays an integer; zero with a
minus sign does not -/
def ofInteger? (negative : Bool) (n : Nat) : Option Number :=
  if negative then
    if 0 < n ∧ n ≤ Nat.pow 2 63 then some (int (-n))
    else (Binary64.ofDecimal? true n 0).map binary
  else if n < Text.wordSize then some (int n)
  else (Binary64.ofDecimal? false n 0).map binary

/-- digits, then possibly a fraction and an exponent; with one of the two it is a binary64
number.  None for other texts and for numbers out of range. -/
def ofLiteral? (s : Text) : Option Number := do
  let (negative, s) := match s with
    | '-' :: r => (true, r)
    | _ => (false, s)
  let (whole, s) ← digitRun? s
  let (fraction, s) ← fraction? s
  let (exponent, s) ← exponent? s
  if s ≠ [] ∨ (whole.head? = some '0' ∧ 1 < whole.length) then none
  else if fraction.isNone && exponent.isNone then ofInteger? negative (Text.digitsValue whole)
  else
    let f := fraction.getD []
    let x := exponent.getD 0 - f.length
    (Binary64.ofDecimal? negative (Text.digitsValue (whole ++ f)) x).map binary

end Number
end Mustache
