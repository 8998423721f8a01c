import CircuitIR.Number.Binary

/-!
# Decimal digits of a binary number

The digits of a positive number on a decimal grid, always computed exactly: a given number of
significant digits, a given number of places, or the fewest digits that read back as the same
double. Among the shortest candidates the nearest to the number is taken.
-/

namespace CircuitIR

attribute [local instance (high)] instPowNat

/-- The positive number `digits * 10 ^ exponent`. -/
structure Decimal where
  digits : Nat
  exponent : Int
deriving DecidableEq, Repr, Inhabited

namespace Decimal

/-- A positive number as a fraction of natural numbers. -/
def fractionOf (x : Binary) : Nat × Nat :=
  if 0 ≤ x.exponent then (x.mantissa.natAbs <<< x.exponent.toNat, 1)
  else (x.mantissa.natAbs, 1 <<< (-x.exponent).toNat)

/-- A fraction multiplied by a power of ten. -/
def timesPowerOfTen (f : Nat × Nat) (k : Int) : Nat × Nat :=
  if 0 ≤ k then (f.1 * 10 ^ k.toNat, f.2) else (f.1, f.2 * 10 ^ (-k).toNat)

/-- Raises a lower estimate of a decimal exponent until the next power of ten exceeds the number. -/
def raiseExponent (f : Nat × Nat) : Nat → Int → Int
  | 0, e => e
  | fuel + 1, e =>
    let g := timesPowerOfTen f (-(e + 1))
    if g.2 ≤ g.1 then raiseExponent f fuel (e + 1) else e

/-- The `e` with `10 ^ e ≤ x < 10 ^ (e + 1)`. -/
def leadingExponent (x : Binary) : Int :=
  -- `30103 / 100000` is a little above the decimal logarithm of two
  let low := (x.magnitude - 1) * 30103 / 100000 - 1 - x.magnitude.natAbs / 1000000
  raiseExponent (fractionOf x) (4 + x.magnitude.natAbs / 500000) low

/-- A quotient of natural numbers rounded to nearest, ties to even. -/
def roundQuotient (n d : Nat) : Nat :=
  let q := n / d
  let r := n % d
  if 2 * r < d then q
  else if d < 2 * r then q + 1
  else if q % 2 = 0 then q else q + 1

/-- The number rounded to `n` significant digits; exactly `n` digits are kept. -/
def significant (n : Nat) (x : Binary) : Decimal :=
  let e := leadingExponent x
  let g := timesPowerOfTen (fractionOf x) (n - 1 - e)
  let q := roundQuotient g.1 g.2
  if q = 10 ^ n then ⟨10 ^ (n - 1), e + 1 - (n - 1)⟩ else ⟨q, e - (n - 1)⟩

/-- The number of units of `10 ^ -places`, rounded to nearest. -/
def places (places : Nat) (x : Binary) : Nat :=
  let g := timesPowerOfTen (fractionOf x) places
  roundQuotient g.1 g.2

/-- The interval of numbers that round to a positive double, as its ends in units of
`2 ^ unit` and whether the ends belong to it. -/
structure RoundingInterval where
  low : Nat
  value : Nat
  high : Nat
  unit : Int
  closed : Bool

/-- Half the gap to each neighbour, in units of a quarter of the last place. -/
def roundingInterval (x : Binary) : RoundingInterval :=
  let least : Int := max (x.magnitude - 53) (-1074)
  let m := x.mantissa.natAbs <<< (x.exponent - least).toNat
  let narrow := m = 1 <<< 52 ∧ -1074 < least
  ⟨4 * m - (if narrow then 1 else 2), 4 * m, 4 * m + 2, least - 2, m % 2 = 0⟩

def RoundingInterval.contains (i : RoundingInterval) (d : Decimal) : Bool :=
  -- both sides are brought to a common unit
  let s : Nat × Nat := timesPowerOfTen (d.digits, 1) d.exponent
  let (num, den) :=
    if 0 ≤ i.unit then (s.1, s.2 <<< i.unit.toNat) else (s.1 <<< (-i.unit).toNat, s.2)
  if i.closed then i.low * den ≤ num && num ≤ i.high * den
  else i.low * den < num && num < i.high * den

/-- The nearer of the two neighbours of a number on the grid of `n` significant digits that reads
back as it. -/
def shortestWith (x : Binary) (i : RoundingInterval) (e : Int) (n : Nat) : Option Decimal :=
  let g := timesPowerOfTen (fractionOf x) (n - 1 - e)
  let q := g.1 / g.2
  let r := g.1 % g.2
  let below : Decimal := ⟨q, e - (n - 1)⟩
  let above : Decimal := ⟨q + 1, e - (n - 1)⟩
  let (first, second) := if 2 * r < g.2 || (2 * r = g.2 && q % 2 = 0)
    then (below, above) else (above, below)
  if i.contains first then some first
  else if i.contains second then some second
  else none

/-- The shortest decimal that reads back as the given positive double. -/
def shortest (x : Binary) : Decimal :=
  let i := roundingInterval x
  let e := leadingExponent x
  ((List.range 17).findSome? fun k => shortestWith x i e (k + 1)).getD (significant 17 x)

end Decimal

end CircuitIR
