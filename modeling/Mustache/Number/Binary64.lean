/-!
# Binary64 numbers

A finite number in the format binary64 is `±m · 2^e` with `m < 2^53` and `-1074 ≤ e ≤ 971`; of
the ways to write it so the one with the smallest `e` is taken, and zero has a sign too.  All
arithmetic here is exact, on naturals.

* `ofRatio?`    the number nearest to a quotient of naturals, a tie goes to the even `m`
* `ofDecimal?`  the number nearest to `d · 10^x`
-/

namespace Mustache

structure Binary64 where
  negative : Bool
  significand : Nat
  exponent : Int
  deriving DecidableEq, Repr

/-- the quotient `n / d` to the nearest natural, a tie to the even one -/
def roundQuotient (n d : Nat) : Nat :=
  let q := n / d
  let r := 2 * (n % d)
  if r < d then q else if d < r then q + 1 else if q % 2 = 0 then q else q + 1

/-- numerator and denominator of `(n / d) / b^x` -/
def scaleDown (b : Nat) (x : Int) (n d : Nat) : Nat × Nat :=
  match x with
  | .ofNat k => (n, d * b.pow k)
  | .negSucc k => (n * b.pow (k + 1), d)

namespace Binary64

def minExponent : Int := -1074
def maxExponent : Int := 971

/-- zero, with a sign -/
def zero (negative : Bool) : Binary64 := ⟨negative, 0, minExponent⟩

/-- the exponent that gives the quotient `n / d` 53 significant bits, or the least one -/
def exponentFor (n d : Nat) : Int :=
  let e := (n.log2 : Int) - d.log2 - 52
  let (n', d') := scaleDown 2 e n d
  max minExponent (if n' < d' * Nat.pow 2 52 then e - 1 else e)

/-- the number nearest to `n / d`; none when that is too large -/
def ofRatio? (negative : Bool) (n d : Nat) : Option Binary64 :=
  if n = 0 then some (zero negative)
  else
    let e := exponentFor n d
    let (n', d') := scaleDown 2 e n d
    let m := roundQuotient n' d'
    let (m, e) := if m = Nat.pow 2 53 then (Nat.pow 2 52, e + 1) else (m, e)
    if e ≤ maxExponent then some (if m = 0 then zero negative else ⟨negative, m, e⟩) else none

/-- the number nearest to `d · 10^x`; magnitudes far outside the format are settled by the count
of digits -/
def ofDecimal? (negative : Bool) (d : Nat) (x : Int) : Option Binary64 :=
  let top := ((Nat.toDigits 10 d).length : Int) + x
  if d = 0 ∨ top < -330 then some (zero negative)
  else if 320 < top then none
  else
    let (n, d) := scaleDown 10 (-x) d 1
    ofRatio? negative n d

def isZero (x : Binary64) : Bool := x.significand == 0

/-- numerical equality: the two zeros are equal -/
def numEq (x y : Binary64) : Bool := (x.isZero && y.isZero) || x == y

end Binary64
end Mustache
