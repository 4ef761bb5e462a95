import Mustache.Number.Binary64

/-!
# Shortest decimals

The reals that round to a number `m · 2^e` form an interval around it, whose ends belong to it
exactly when `m` is even.  The shortest decimal is taken from the coarsest grid of powers of ten
that has a point in the interval: of the two neighbours of the number on that grid the nearer one
in the interval, a tie going to the even one.
-/

namespace Mustache

/-- the number `digits · 10^exponent` -/
structure Decimal where
  digits : Nat
  exponent : Int
  deriving DecidableEq, Repr

/-- the interval of a number, all three over one denominator -/
structure RoundingInterval where
  low : Nat
  value : Nat
  high : Nat
  denominator : Nat
  /-- the ends belong to the interval -/
  closed : Bool

namespace RoundingInterval

/-- the gap below a power of two is half the gap above it, except at the least exponent -/
def of (x : Binary64) : RoundingInterval :=
  let m := x.significand
  let below := if m = Nat.pow 2 52 ∧ Binary64.minExponent < x.exponent then 1 else 2
  let scale := fun n => scaleDown 2 (2 - x.exponent) n 1
  ⟨(scale (4 * m - below)).1, (scale (4 * m)).1, (scale (4 * m + 2)).1, (scale 1).2, m % 2 = 0⟩

/-- the grid point `c / d`, over the same scale as the ends, lies in the interval -/
def contains (i : RoundingInterval) (up c d : Nat) : Bool :=
  if i.closed then i.low * up ≤ c * d && c * d ≤ i.high * up
  else i.low * up < c * d && c * d < i.high * up

/-- the digits of the grid point chosen on the grid of `10^p`, if there is one -/
def onGrid? (i : RoundingInterval) (p : Int) : Option Nat :=
  let (up, d) := scaleDown 10 p 1 i.denominator
  let v := i.value * up
  let c := v / d
  match i.contains up c d, i.contains up (c + 1) d with
  | true, true => some (roundQuotient v d)
  | true, false => some c
  | false, true => some (c + 1)
  | false, false => none

/-- the first grid with a hit, from `10^p` downward -/
def search (i : RoundingInterval) : Nat → Int → Option Decimal
  | 0, _ => none
  | n + 1, p =>
    match i.onGrid? p with
    | some c => some ⟨c, p⟩
    | none => search i n (p - 1)

end RoundingInterval

/-- an exponent of ten above the magnitude of a number; 30103 / 100000 is a little more than the
logarithm of two -/
def Binary64.decimalTop (x : Binary64) : Int :=
  ((x.significand.log2 : Int) + x.exponent) * 30103 / 100000 + 2

/-- the shortest decimal that rounds to the magnitude of `x`; seventeen digits are always enough -/
def Binary64.shortest (x : Binary64) : Decimal :=
  if x.isZero then ⟨0, 0⟩
  else ((RoundingInterval.of x).search 24 x.decimalTop).getD ⟨0, 0⟩

end Mustache
