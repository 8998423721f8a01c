/-!
# Binary numbers

Exact numbers of the form `m * 2 ^ e` with integer `m` and `e`, and rounding to a given number of
significant bits. Sums and products are exact; quotients and roots are rounded. A double is the
special case of 53 bits with a bounded exponent, so the module also converts to and from `Float`
without losing a bit.
-/

namespace CircuitIR

-- powers of natural numbers are those of the core library, whatever else is imported
attribute [local instance (high)] instPowNat

/-- The number `mantissa * 2 ^ exponent`. The functions below keep the mantissa odd, or both parts
zero, so that equal numbers are equal as structures. -/
structure Binary where
  mantissa : Int
  exponent : Int
deriving DecidableEq, Repr, Inhabited

namespace Binary

/-- Number of binary digits of a natural number; zero has none. -/
def bitLength (n : Nat) : Nat :=
  if n = 0 then 0 else n.log2 + 1

/-- Number of trailing zero bits of a positive number: the position of its lowest one. -/
def trailingZeros (n : Nat) : Nat :=
  (n - (n &&& (n - 1))).log2

/-- The number `m * 2 ^ e` in lowest terms. -/
def scaled (m e : Int) : Binary :=
  if m = 0 then ⟨0, 0⟩
  else
    let z := trailingZeros m.natAbs
    ⟨m >>> z, e + z⟩

def zero : Binary := ⟨0, 0⟩

def one : Binary := ⟨1, 0⟩

def ofInt (n : Int) : Binary := scaled n 0

def isZero (x : Binary) : Bool := x.mantissa == 0

def isNegative (x : Binary) : Bool := x.mantissa < 0

def isPositive (x : Binary) : Bool := 0 < x.mantissa

def isInteger (x : Binary) : Bool := 0 ≤ x.exponent

def neg (x : Binary) : Binary := ⟨-x.mantissa, x.exponent⟩

def abs (x : Binary) : Binary := ⟨x.mantissa.natAbs, x.exponent⟩

/-- The least `k` with `|x| < 2 ^ k`; meaningless at zero. -/
def magnitude (x : Binary) : Int := bitLength x.mantissa.natAbs + x.exponent

/-- Multiplication by a power of two. -/
def shift (x : Binary) (k : Int) : Binary :=
  if x.mantissa = 0 then zero else ⟨x.mantissa, x.exponent + k⟩

def add (x y : Binary) : Binary :=
  if x.isZero then y
  else if y.isZero then x
  else
    let e := min x.exponent y.exponent
    scaled (x.mantissa <<< (x.exponent - e).toNat + y.mantissa <<< (y.exponent - e).toNat) e

def sub (x y : Binary) : Binary := add x y.neg

/-- A product of odd mantissas is odd, so no common power of two appears. -/
def mul (x y : Binary) : Binary :=
  if x.isZero || y.isZero then zero else ⟨x.mantissa * y.mantissa, x.exponent + y.exponent⟩

def pow (x : Binary) (n : Nat) : Binary :=
  if x.isZero then (if n = 0 then one else zero)
  else ⟨x.mantissa ^ n, x.exponent * n⟩

/-- Exact comparison of the represented numbers. -/
def lt (x y : Binary) : Bool := (sub x y).isNegative

def le (x y : Binary) : Bool := !(lt y x)

/-- Largest integer not above the number. -/
def floor (x : Binary) : Int :=
  if 0 ≤ x.exponent then x.mantissa <<< x.exponent.toNat
  else x.mantissa >>> (-x.exponent).toNat

/-- The integer part: the fraction is dropped, toward zero. -/
def truncate (x : Binary) : Int :=
  if x.isNegative then -(floor x.neg) else floor x

/-- The number as a fraction. -/
def toRat (x : Binary) : Rat :=
  if 0 ≤ x.exponent then (x.mantissa <<< x.exponent.toNat : Int)
  else mkRat x.mantissa (1 <<< (-x.exponent).toNat)

/-- Quotient of natural numbers by a power of two, rounded to nearest; a tie goes to the even
quotient. -/
def roundShift (n s : Nat) : Nat :=
  let q := n >>> s
  let r := n - (q <<< s)
  let half := if s = 0 then 1 else 1 <<< (s - 1)
  if r < half then q
  else if half < r then q + 1
  else if q % 2 = 0 then q else q + 1

/-- Rounding to `p` significant bits, to nearest, ties to even. -/
def round (p : Nat) (x : Binary) : Binary :=
  let n := x.mantissa.natAbs
  let bits := bitLength n
  if bits ≤ p then x
  else
    let s := bits - p
    let q := roundShift n s
    scaled (if x.mantissa < 0 then -(q : Int) else q) (x.exponent + s)

/-- The quotient of two integers to `p` significant bits. A sticky bit below the quotient makes the
rounding that of the exact fraction. -/
def ofFraction (p : Nat) (num : Int) (den : Nat) : Binary :=
  if num = 0 || den = 0 then zero
  else
    let n := num.natAbs
    let k := p + 2 + bitLength den - bitLength n
    let n' := n <<< k
    let q := n' / den
    let sticky := if q * den = n' then 0 else 1
    let m : Int := 2 * q + sticky
    round p (scaled (if num < 0 then -m else m) (-(k : Int) - 1))

def ofRat (p : Nat) (q : Rat) : Binary := ofFraction p q.num q.den

/-- The quotient to `p` significant bits; division by zero gives zero. -/
def div (p : Nat) (x y : Binary) : Binary :=
  if y.isZero then zero
  else
    let q := ofFraction p (if y.isNegative then -x.mantissa else x.mantissa) y.mantissa.natAbs
    q.shift (x.exponent - y.exponent)

/-- The square root of a nonnegative number to `p` significant bits. -/
def sqrt (p : Nat) (x : Binary) : Binary :=
  if x.mantissa ≤ 0 then zero
  else
    let n := x.mantissa.natAbs
    let base : Nat := 2 * (p + 2) - bitLength n
    let k : Nat := if (x.exponent - base) % 2 = 0 then base else base + 1
    let n' := n <<< k
    let r := n'.sqrt
    let sticky := if r * r = n' then 0 else 1
    round p (scaled (2 * r + sticky : Nat) ((x.exponent - k) / 2 - 1))

/-- The sum to `p` significant bits. -/
def addAt (p : Nat) (x y : Binary) : Binary := round p (add x y)

/-- The product to `p` significant bits. -/
def mulAt (p : Nat) (x y : Binary) : Binary := round p (mul x y)

/-! ## Doubles -/

/-- The double nearest to a number: ties to even, overflow to infinity, gradual underflow. -/
def toFloat (x : Binary) : Float :=
  let n := x.mantissa.natAbs
  let sign : Nat := if x.mantissa < 0 then 1 <<< 63 else 0
  if n = 0 then Float.ofBits 0
  else
    let top : Int := bitLength n + x.exponent
    let least : Int := max (top - 53) (-1074)
    if 1024 < top then Float.ofBits (sign + 0x7ff <<< 52).toUInt64
    else if top < -1100 then Float.ofBits sign.toUInt64
    else
      let m :=
        if least ≤ x.exponent then n <<< (x.exponent - least).toNat
        else roundShift n (least - x.exponent).toNat
      -- a carry into the 54th bit only moves to the next exponent
      let (m, least) := if m = 1 <<< 53 then (1 <<< 52, least + 1) else (m, least)
      if m < 1 <<< 52 then Float.ofBits (sign + m).toUInt64
      else if 971 < least then Float.ofBits (sign + 0x7ff <<< 52).toUInt64
      else Float.ofBits (sign + (least + 1075).toNat <<< 52 + (m - 1 <<< 52)).toUInt64

/-- The exact value of a finite double; `none` for infinities and NaN. -/
def ofFloat? (x : Float) : Option Binary :=
  let bits := x.toBits.toNat
  let fraction := bits % (1 <<< 52)
  let biased := (bits >>> 52) % 2048
  let signed (n : Nat) : Int := if bits >>> 63 = 1 then -(n : Int) else n
  if biased = 2047 then none
  else if biased = 0 then some (scaled (signed fraction) (-1074))
  else some (scaled (signed (fraction + 1 <<< 52)) ((biased : Int) - 1075))

end Binary

end CircuitIR
