import CircuitIR.Number.Binary

/-!
# Elementary functions of binary numbers

Exponential, logarithm, trigonometric and hyperbolic functions and the factorial of a number that
need not be an integer. Each function takes the number of bits wanted and returns a value whose
relative error is below `2 ^ -bits`. The work is done on integers that count units of `2 ^ -w`, with
`w` enough larger than the bits wanted to cover argument reduction and cancellation; every series
runs until its terms vanish, and its number of terms is bounded by `w`.
-/

namespace CircuitIR.Binary

attribute [local instance (high)] instPowNat

/-- The number as a count of units `2 ^ -w`, rounded down. -/
def toUnits (w : Nat) (x : Binary) : Int := (x.shift w).floor

/-- The number that counts `n` units of `2 ^ -w`. -/
def ofUnits (w : Nat) (n : Int) : Binary := scaled n (-(w : Int))

/-- The bits by which a number lies below one, or zero if it does not. -/
def smallness (x : Binary) : Nat := (-x.magnitude).toNat

/-- The bits of the integer part of a number. -/
def largeness (x : Binary) : Nat := x.magnitude.toNat

/-- The sum of `± t / k` over odd `k`, where each `t` is the one before divided by `square`. -/
def inverseSeries (alternating : Bool) (square : Nat) : Nat → Int → Nat → Int
  | 0, _, _ => 0
  | fuel + 1, t, k =>
    if t = 0 then 0
    else
      let rest := inverseSeries alternating square fuel (t / square) (k + 2)
      t / k + (if alternating then -rest else rest)

/-- The inverse tangent (or inverse hyperbolic tangent) of `1 / n` in units of `2 ^ -w`. -/
def inverseTangentUnits (alternating : Bool) (w n : Nat) : Int :=
  inverseSeries alternating (n * n) (w + 1) ((1 <<< w : Nat) / n : Nat) 1

/-- The circle constant in units of `2 ^ -w`, by Machin's formula. -/
def piUnits (w : Nat) : Int :=
  let v := w + 16
  (16 * inverseTangentUnits true v 5 - 4 * inverseTangentUnits true v 239) >>> (16 : Nat)

/-- The natural logarithm of two in units of `2 ^ -w`. -/
def logTwoUnits (w : Nat) : Int :=
  let v := w + 16
  (18 * inverseTangentUnits false v 26 - 2 * inverseTangentUnits false v 4801
    + 8 * inverseTangentUnits false v 8749) >>> (16 : Nat)

def pi (bits : Nat) : Binary := ofUnits (bits + 8) (piUnits (bits + 8))

/-- The exponential series `t + t x / k + t x² / (k (k + 1)) + …`. -/
def exponentialSeries (w : Nat) (x : Int) : Nat → Int → Nat → Int
  | 0, _, _ => 0
  | fuel + 1, t, k =>
    if t = 0 then 0 else t + exponentialSeries w x fuel ((t * x) >>> w / k) (k + 1)

/-- Repeated squaring in units of `2 ^ -w`. -/
def squareTimes (w : Nat) : Nat → Int → Int
  | 0, x => x
  | n + 1, x => squareTimes w n ((x * x) >>> w)

/-- The exponential of `x` units, for `0 ≤ x < 2 ^ w`. -/
def expUnits (w : Nat) (x : Int) : Int :=
  let s := w.sqrt
  let v := w + 2 * s + 8
  let y := (x <<< (v - w)) >>> s
  squareTimes v s (exponentialSeries v y (v + 1) (1 <<< v : Nat) 1) >>> (v - w)

/-- A number beyond every exponent that matters, standing for a result too large to compute. -/
def enormous : Binary := ⟨1, 1 <<< 80⟩

/-- A positive number below every exponent that matters. -/
def minute : Binary := ⟨1, -(1 <<< 80)⟩

def exp (bits : Nat) (x : Binary) : Binary :=
  if x.isZero then one
  else if 64 < x.magnitude then (if x.isNegative then minute else enormous)
  else
    let w := bits + 16 + 2 * x.largeness
    let u := x.toUnits w
    let k := u / logTwoUnits w
    ofUnits w (expUnits w (u - k * logTwoUnits w)) |>.shift k

/-- The series `t + t x² (k / (k + 2)) + …` of the inverse hyperbolic tangent. -/
def artanhSeries (w : Nat) (square : Int) : Nat → Int → Nat → Int
  | 0, _, _ => 0
  | fuel + 1, t, k =>
    if t = 0 then 0 else t / k + artanhSeries w square fuel ((t * square) >>> w) (k + 2)

/-- The natural logarithm of a positive number. -/
def log (bits : Nat) (x : Binary) : Binary :=
  if x.mantissa ≤ 0 then zero
  else
    -- `x = t * 2 ^ k` with `3/4 ≤ t < 3/2`
    let k₀ := x.magnitude
    let k := if lt (x.shift (-k₀)) ⟨3, -2⟩ then k₀ - 1 else k₀
    let t := x.shift (-k)
    let d := sub t one
    let w := bits + 24 + d.smallness + bitLength k.natAbs
    let y : Int := (d.toUnits (2 * w)) / ((add t one).toUnits w)
    let s := artanhSeries w ((y * y) >>> w) (w + 1) (y.natAbs : Int) 1
    ofUnits w (2 * (if y < 0 then -s else s) + k * logTwoUnits w)

/-- The alternating series `t - t x² / (k (k + 1)) + …` common to sine and cosine. -/
def circularSeries (w : Nat) (square : Int) : Nat → Int → Nat → Int
  | 0, _, _ => 0
  | fuel + 1, t, k =>
    if t = 0 || t = -1 then 0
    else t - circularSeries w square fuel ((t * square) >>> w / (k * (k + 1) : Nat)) (k + 2)

/-- Reduction of an angle to the nearest quarter turn: the number of quarter turns modulo four and
the rest in units of `2 ^ -w`. The working precision grows until the rest has enough bits. -/
def quarterTurns (bits : Nat) (x : Binary) : Nat → Nat → Int × Int × Nat
  | 0, w => (0, x.toUnits w, w)
  | fuel + 1, w =>
    let halfPi := piUnits (w + x.largeness) / 2
    let u := x.toUnits (w + x.largeness)
    let n := (2 * u + halfPi) / (2 * halfPi)
    let r := (u - n * halfPi) >>> x.largeness
    if bitLength r.natAbs < bits + 8 then quarterTurns bits x fuel (2 * w + x.smallness)
    else (n % 4, r, w)

def sinCos (bits : Nat) (x : Binary) : Binary × Binary :=
  if x.isZero then (zero, one)
  else
    let (n, r, w) := quarterTurns bits x 6 (bits + 24 + x.smallness)
    let square := (r * r) >>> w
    let one : Int := (1 <<< w : Nat)
    let s := ofUnits w
      (if r < 0 then -(circularSeries w square (w + 1) (-r) 2)
        else circularSeries w square (w + 1) r 2)
    let c := ofUnits w (circularSeries w square (w + 1) one 1)
    if n = 0 then (s, c)
    else if n = 1 then (c, s.neg)
    else if n = 2 then (s.neg, c.neg)
    else (c.neg, s)

def sin (bits : Nat) (x : Binary) : Binary := (sinCos bits x).1

def cos (bits : Nat) (x : Binary) : Binary := (sinCos bits x).2

def tan (bits : Nat) (x : Binary) : Binary :=
  let (s, c) := sinCos (bits + 4) x
  div (bits + 4) s c

/-- The alternating series `t - t x² (k / (k + 2)) + …` of the inverse tangent. -/
def arctanSeries (w : Nat) (square : Int) : Nat → Int → Nat → Int
  | 0, _, _ => 0
  | fuel + 1, t, k =>
    if t = 0 then 0 else t / k - arctanSeries w square fuel ((t * square) >>> w) (k + 2)

/-- One halving of the angle: the tangent of half the inverse tangent of `t`. -/
def halveTangent (bits : Nat) (t : Binary) : Binary :=
  div bits t (add one (sqrt bits (add one (mul t t))))

/-- The inverse tangent of a number between zero and one. -/
def atanUnit (bits : Nat) (t : Binary) : Binary :=
  if t.isZero then zero
  else
    let p := bits + 16
    let h := halveTangent p (halveTangent p (halveTangent p (round p t)))
    let w := p + h.smallness
    let u := h.toUnits w
    ofUnits w (8 * arctanSeries w ((u * u) >>> w) (w + 1) u 1)

def atan (bits : Nat) (x : Binary) : Binary :=
  let t := x.abs
  let a :=
    if le t one then atanUnit bits t
    else sub (pi (bits + 8) |>.shift (-1)) (atanUnit (bits + 8) (div (bits + 24) one t))
  if x.isNegative then a.neg else a

/-- The inverse sine of a number between minus one and one. -/
def asin (bits : Nat) (x : Binary) : Binary :=
  let p := bits + 16
  let c := sqrt p (mul (sub one x) (add one x))
  if c.isZero then
    (if x.isNegative then (pi bits |>.shift (-1)).neg else pi bits |>.shift (-1))
  else atan (bits + 4) (div p x c)

/-- The inverse cosine of a number between minus one and one. -/
def acos (bits : Nat) (x : Binary) : Binary :=
  let p := bits + 16
  let d := add one x
  if d.isZero then pi bits
  else (atan (bits + 4) (sqrt p (div p (sub one x) d))).shift 1

/-- Bits past which a hyperbolic tangent agrees with one. -/
def saturation (bits : Nat) (x : Binary) : Bool :=
  lt (ofInt (bits + 8)) x.abs

def sinh (bits : Nat) (x : Binary) : Binary :=
  let p := bits + 8 + 2 * x.smallness
  let e := exp p x
  (sub e (div p one e)).shift (-1)

def cosh (bits : Nat) (x : Binary) : Binary :=
  let p := bits + 8
  let e := exp p x
  (add e (div p one e)).shift (-1)

def tanh (bits : Nat) (x : Binary) : Binary :=
  if x.saturation bits then
    -- one up to the bits wanted, but not one
    let a := sub one ⟨1, -(bits + 8 : Nat)⟩
    if x.isNegative then a.neg else a
  else
    let p := bits + 16 + 2 * x.smallness
    let e := exp p (x.shift 1)
    div (bits + 8) (sub e one) (add e one)

/-- A positive number to a real power. -/
def rpow (bits : Nat) (x y : Binary) : Binary :=
  let extra := (y.magnitude + bitLength x.magnitude.natAbs + 2).toNat
  exp (bits + 8) (mul y (log (bits + 16 + extra) x))

/-! ## Factorial of a real number -/

/-- Binomial coefficients of a row from the row above it. -/
def nextPascalRow (row : List Nat) : List Nat :=
  List.zipWith (· + ·) (0 :: row) (row ++ [0])

/-- The Bernoulli numbers `B 0, …, B (n - 1)`, each from those before it. -/
def bernoulli (n : Nat) : List Rat :=
  ((List.range n).foldl
    (fun (state : List Rat × List Nat) m =>
      let (known, row) := state
      -- `row` is row `m + 1` of Pascal's triangle
      let s := (List.zipWith (fun (b : Rat) (c : Nat) => b * c) known row).foldl (· + ·) 0
      let b : Rat := if m = 0 then 1 else -s / (m + 1 : Nat)
      (known ++ [b], nextPascalRow row))
    ([], [1, 1])).1

/-- The product `z (z + 1) … (z + n - 1)`. -/
def risingFactorial (bits : Nat) (z : Binary) : Nat → Binary
  | 0 => one
  | n + 1 => mulAt bits z (risingFactorial bits (add z one) n)

/-- The logarithm of the gamma function far from the origin, by Stirling's series. -/
def logGammaSeries (bits terms : Nat) (z : Binary) : Binary :=
  let main :=
    add (sub (mul (sub z ⟨1, -1⟩) (log bits z)) z)
      ((log bits ((pi bits).shift 1)).shift (-1))
  let square := round bits (mul z z)
  let coefficients := ((bernoulli (2 * terms + 1)).zipIdx.filter fun (_, k) => k % 2 == 0 && k != 0)
  (coefficients.foldl
    (fun (state : Binary × Binary) (b, k) =>
      let (sum, power) := state
      (addAt bits sum (mulAt bits (ofRat bits (b / (k * (k - 1) : Nat))) power),
        div bits power square))
    (main, div bits one z)).1

/-- The gamma function at a positive number. -/
def gammaPositive (bits : Nat) (z : Binary) : Binary :=
  let shiftBy := (bits : Int) - z.floor
  let n := shiftBy.toNat
  let w := bits + 32 + z.largeness + bitLength bits
  let far := add z (ofInt n)
  div (bits + 8) (exp (bits + 16) (logGammaSeries (w + 16) (bits / 4 + 8) far))
    (risingFactorial w z n)

/-- The factorial of a number; `none` at the negative integers, where it has poles. -/
def factorial? (bits : Nat) (x : Binary) : Option Binary :=
  let z := add x one
  if z.isPositive then some (gammaPositive bits z)
  else if z.isInteger then none
  else
    -- reflection: `Γ z Γ (1 - z) = π / sin (π z)`
    let p := bits + 16 + z.largeness
    let s := sin p (mulAt (p + z.largeness) (pi (p + 2 * z.largeness)) z)
    some (div p (pi p) (mul s (gammaPositive p (sub one z))))

end CircuitIR.Binary
