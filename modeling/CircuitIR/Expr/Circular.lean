import CircuitIR.Expr.Rules

/-!
# Trigonometric functions

Simplification of the trigonometric functions and their inverses. Signs and the imaginary unit are
moved out of the argument, multiples of `π / 2` are split off, arguments that are rational multiples
of `π` get their exact values where these need square roots only, and a function of its inverse is
the argument. A result `none` means that the application stays as it is.
-/

namespace CircuitIR.Expr

attribute [local instance (high)] instPowNat

/-! ## Parts of an argument -/

/-- The coefficient of a constant that is a factor of an expression. -/
def coefficientOf (c : Constant) (e : Expr) : Option Expr :=
  let isConstant (f : Expr) : Bool := f == .constant c
  match e with
  | .constant d => if d == c then some one else none
  | .product fs =>
    if (fs.filter isConstant).length = 1 then some (ofFactors (fs.filter fun f => !isConstant f))
    else none
  | _ => none

/-- The coefficient of the imaginary unit in a purely imaginary product. -/
def imaginaryCoefficient? (e : Expr) : Option Expr :=
  match coefficientOf .i e with
  | some c => if c.contains imaginaryUnit then none else some c
  | none => none

/-- A rational number reduced into `[0, n)`. -/
def ratModulo (q n : Rat) : Rat := q - n * (q / n).floor

/-- An inexact coefficient as a fraction, if it is one with a denominator close to its size. -/
def recastCoefficient (n : Number) : Number :=
  match n with
  | .float x _ =>
    let q := x.toRat
    let f := ratModulo (if q < 0 then -q else q) 1
    if f = 0 then .exact q
    else
      -- the fraction is compared on the grid of the power of two nearest to it
      let b := Binary.ofRat 64 f
      let k := -(b.magnitude)
      -- `2 ^ k ≤ 1 / f < 2 ^ (k + 1)`, rounded in the exponent
      let p : Nat := (if Binary.lt (Binary.mul b b) (Binary.shift .one (-(2 * k + 1))) then k + 1
        else k).toNat
      let scaled := q * (2 ^ p : Nat)
      if scaled.den = 1 then .exact q else n
  | n => n

/-- The argument as a multiple of `π`, with its numeric coefficient reduced modulo two. -/
def piCoefficient? (r : Rules) (e : Expr) : Option Expr :=
  match e with
  | .number n => if n.isZero then some zero else none
  | _ =>
    match coefficientOf .pi e with
    | none => none
    | some cx =>
      let (c, x) := cx.splitCoefficient
      let c := recastCoefficient c
      if x.facts.isInteger then
        let m := c.modulo (.ofInt 2)
        if m.isOne then some x
        else if m.isZero then (if x.facts.even.isSome then some zero else some (int 2))
        else some (r.product [.number m, x])
      else some (r.product [.number c, x])

/-- The rational multiple of `π` that a term is. -/
def rationalPiMultiple? (t : Expr) : Option Rat :=
  match coefficientOf .pi t with
  | some (.number (.exact q)) => some q
  | _ => none

/-- Splits a multiple of `π / 2` off a sum. Gives what remains and the multiple of `π`. -/
def peelPi (r : Rules) (ts : List Expr) : Option (Expr × Rat) :=
  let c := (ts.filterMap rationalPiMultiple?).foldl (· + ·) 0
  if c = 0 then none
  else
    let m₁ := ratModulo c (1 / 2)
    let m₂ := c - m₁
    if m₂ = 0 then none
    else
      let rest := ts.filter fun t => (rationalPiMultiple? t).isNone
      some (r.sum (rest ++ [r.product [rat m₁, pi]]), m₂)

def piTimes (r : Rules) (q : Rat) : Expr := r.product [rat q, pi]

/-! ## Exact values -/

/-- Denominators whose cosine is that of a difference of two angles with smaller denominators. -/
def angleDifference : Nat → Option (Nat × Nat)
  | 12 => some (3, 4)
  | 20 => some (4, 5)
  | 30 => some (5, 6)
  | 15 => some (6, 10)
  | 24 => some (6, 8)
  | 40 => some (8, 10)
  | 60 => some (20, 30)
  | 120 => some (40, 60)
  | _ => none

/-- The cosine of `q * π` by square roots, to a bounded number of reductions. -/
def cosOfPi (r : Rules) : Nat → Rat → Option Expr
  | 0, _ => none
  | fuel + 1, q =>
    let q := ratModulo q 2
    if q = 0 then some one
    else if q = 1 then some minusOne
    else if 1 < q then (cosOfPi r fuel (q - 1)).map r.neg
    else if q = 1 / 2 then some zero
    else if 1 / 2 < q then (cosOfPi r fuel (1 - q)).map r.neg
    else
      let p : Rat := q.num
      match angleDifference q.den with
      | some (a, b) =>
        let x := p / a
        let y := p / b
        match cosOfPi r fuel x, cosOfPi r fuel y, cosOfPi r fuel (1 / 2 - x),
            cosOfPi r fuel (1 / 2 - y) with
        | some cx, some cy, some sx, some sy =>
          some (r.sum [r.product [cx, cy], r.product [sx, sy]])
        | _, _, _, _ => none
      | none =>
        if 12 < q.den then none
        else if q.den = 3 then some half
        else if q.den = 5 then
          let c : Rat := if q.num = 1 then 1 / 4 else -1 / 4
          some (r.sum [rat c, r.scale (1 / 4) (r.sqrt (int 5))])
        else if q.den % 2 = 0 then
          (cosOfPi r fuel (2 * q)).map fun c => r.sqrt (r.scale (1 / 2) (r.sum [one, c]))
        else none

/-- The cosine of a rational multiple of `π` between zero and a half, evaluated or not. -/
def cosOfRational (r : Rules) (q : Rat) : Option Expr := cosOfPi r 16 q

/-- The tangent of `q * π` for the denominators five and ten. -/
def tanTenths (r : Rules) (n : Int) : Expr :=
  let s := r.sqrt (int 5)
  match n with
  | 1 => r.sqrt (r.sum [one, r.scale (-2 / 5) s])
  | 2 => r.sqrt (r.sum [int 5, r.scale (-2) s])
  | 3 => r.sqrt (r.sum [one, r.scale (2 / 5) s])
  | _ => r.sqrt (r.sum [int 5, r.scale 2 s])

/-- The tangent of `q * π` by square roots. -/
def tanOfPi (r : Rules) (q : Rat) : Option Expr :=
  let q := ratModulo q 1
  if q = 0 then some zero
  else if q = 1 / 2 then some complexInfinity
  else if q.den = 5 || q.den = 10 then
    let n := (10 * q).floor
    some (if 5 < n then r.neg (tanTenths r (10 - n)) else tanTenths r n)
  else
    let doubled : Option Expr :=
      if q.den % 2 = 0 then
        match cosOfRational r (2 * q), cosOfRational r (2 * q - 1 / 2) with
        | some c, some s =>
          if s.isZero then some complexInfinity
          else some (r.sum [r.inverse s, r.neg (r.div c s)])
        | _, _ => none
      else none
    match doubled with
    | some t => some t
    | none =>
      let q := ratModulo (q + 1 / 2) 1 - 1 / 2
      match cosOfRational r q, cosOfRational r (q - 1 / 2) with
      | some c, some s => if c.isZero then some complexInfinity else some (r.div s c)
      | _, _ => none

/-! ## Sine, cosine, tangent -/

/-- `√(1 - x²)` -/
def complement (r : Rules) (x : Expr) : Expr := r.sqrt (r.sum [one, r.neg (r.square x)])

/-- `√(1 + x²)` -/
def secant (r : Rules) (x : Expr) : Expr := r.sqrt (r.sum [one, r.square x])

/-- The distance of the point `(x, y)` from the origin. -/
def hypotenuse (r : Rules) (x y : Expr) : Expr := r.sqrt (r.sum [r.square x, r.square y])

/-- An argument `c * π` written with the reduced coefficient, if that changes it. -/
def reducedArgument? (r : Rules) (c e : Expr) : Option Expr :=
  let n := r.product [c, pi]
  if n == e then none else some n

def simplifySin (r : Rules) (e : Expr) : Option Expr :=
  let sin (e : Expr) : Expr := r.apply1 .sin e
  if e.hasMinus then some (r.neg (sin (r.neg e)))
  else
    match imaginaryCoefficient? e with
    | some c => some (r.product [imaginaryUnit, r.apply1 .sinh c])
    | none =>
      match piCoefficient? r e with
      | some c =>
        let k := c.facts
        if k.isInteger then some zero
        else if (r.scale 2 c).facts.isInteger && k.even == some false then
          some (r.power minusOne (r.sum [c, rat (-1 / 2)]))
        else
          match c with
          | .number (.exact q) =>
            let q := ratModulo q 2
            if 1 < q then some (r.neg (sin (piTimes r (q - 1))))
            else if 1 / 2 < q then some (sin (piTimes r (1 - q)))
            else
              match cosOfRational r (q + 3 / 2) with
              | some v => some v
              | none => (reducedArgument? r c e).map sin
          | c => (reducedArgument? r c e).map sin
      | none =>
        match e with
        | .sum ts =>
          (peelPi r ts).map fun (x, m) =>
            let mpi := piTimes r m
            r.sum [r.product [sin mpi, r.apply1 .cos x],
              r.product [r.apply1 .cos mpi, sin x]]
        | .apply .asin [x] => some x
        | .apply .atan [x] => some (r.div x (secant r x))
        | .apply .atan2 [y, x] => some (r.div y (hypotenuse r x y))
        | .apply .acos [x] => some (complement r x)
        | _ => none

def simplifyCos (r : Rules) (e : Expr) : Option Expr :=
  let cos (e : Expr) : Expr := r.apply1 .cos e
  if e.hasMinus then some (cos (r.neg e))
  else
    match imaginaryCoefficient? e with
    | some c => some (r.apply1 .cosh c)
    | none =>
      match piCoefficient? r e with
      | some c =>
        let k := c.facts
        if k.isInteger then some (r.power minusOne c)
        else if (r.scale 2 c).facts.isInteger && k.even == some false then some zero
        else
          match c with
          | .number (.exact q) =>
            if 1 < q then some (r.neg (cos (piTimes r (q - 1))))
            else if 1 / 2 < q then some (r.neg (cos (piTimes r (1 - q))))
            else cosOfRational r q
          | c => (reducedArgument? r c e).map cos
      | none =>
        match e with
        | .sum ts =>
          (peelPi r ts).map fun (x, m) =>
            let mpi := piTimes r m
            r.sum [r.product [cos mpi, cos x],
              r.neg (r.product [r.apply1 .sin mpi, r.apply1 .sin x])]
        | .apply .acos [x] => some x
        | .apply .atan [x] => some (r.inverse (secant r x))
        | .apply .atan2 [y, x] => some (r.div x (hypotenuse r x y))
        | .apply .asin [x] => some (complement r x)
        | _ => none

def simplifyTan (r : Rules) (e : Expr) : Option Expr :=
  let tan (e : Expr) : Expr := r.apply1 .tan e
  if e.hasMinus then some (r.neg (tan (r.neg e)))
  else
    match imaginaryCoefficient? e with
    | some c => some (r.product [imaginaryUnit, r.apply1 .tanh c])
    | none =>
      match piCoefficient? r e with
      | some c =>
        if c.facts.isInteger then some zero
        else
          match c with
          | .number (.exact q) =>
            match tanOfPi r q with
            | some v => some v
            | none =>
              (reducedArgument? r (rat (ratModulo (q + 1 / 2) 1 - 1 / 2)) e).map tan
          | c => (reducedArgument? r c e).map tan
      | none =>
        match e with
        | .sum ts =>
          (peelPi r ts).map fun (x, m) =>
            if m.den = 1 then tan x else r.neg (r.apply1 .cot x)
        | .apply .atan [x] => some x
        | .apply .atan2 [y, x] => some (r.div y x)
        | .apply .asin [x] => some (r.div x (complement r x))
        | .apply .acos [x] => some (r.div (complement r x) x)
        | _ => none

def simplifyCot (r : Rules) (e : Expr) : Option Expr :=
  let cot (e : Expr) : Expr := r.apply1 .cot e
  if e.facts.isZero then some complexInfinity
  else if e.hasMinus then some (r.neg (cot (r.neg e)))
  else
    match imaginaryCoefficient? e with
    | some c => some (r.neg (r.product [imaginaryUnit, r.apply1 .coth c]))
    | none =>
      match piCoefficient? r e with
      | some c =>
        if c.facts.isInteger then some complexInfinity
        else
          match c with
          | .number (.exact q) => (tanOfPi r (1 / 2 - q))
          | c => (reducedArgument? r c e).map cot
      | none =>
        match e with
        | .sum ts =>
          (peelPi r ts).map fun (x, m) =>
            if m.den = 1 then cot x else r.neg (r.apply1 .tan x)
        | .apply .atan [x] => some (r.inverse x)
        | .apply .atan2 [y, x] => some (r.div x y)
        | .apply .asin [x] => some (r.div (complement r x) x)
        | .apply .acos [x] => some (r.div x (complement r x))
        | _ => none

/-! ## Inverse functions -/

/-- Exact sines with their angles as multiples of `π`. -/
def sineTable (r : Rules) : List (Expr × Rat) :=
  let root (n : Int) : Expr := r.sqrt (int n)
  let five (c : Rat) : Expr := r.sum [int 5, r.scale c (root 5)]
  [(r.scale (1 / 2) (root 3), 1 / 3),
    (r.scale (1 / 2) (root 2), 1 / 4),
    (r.sqrt (r.scale (1 / 8) (five (-1))), 1 / 5),
    (r.product [rat (1 / 4), root 2, r.sqrt (five (-1))], 1 / 5),
    (r.sqrt (r.scale (1 / 8) (five 1)), 2 / 5),
    (r.product [rat (1 / 4), root 2, r.sqrt (five 1)], 2 / 5),
    (half, 1 / 6),
    (r.scale (1 / 2) (r.sqrt (r.sum [int 2, r.neg (root 2)])), 1 / 8),
    (r.sqrt (r.sum [half, r.scale (-1 / 4) (root 2)]), 1 / 8),
    (r.scale (1 / 2) (r.sqrt (r.sum [int 2, root 2])), 3 / 8),
    (r.sqrt (r.sum [half, r.scale (1 / 4) (root 2)]), 3 / 8),
    (r.scale (1 / 4) (r.sum [root 5, minusOne]), 1 / 10),
    (r.scale (1 / 4) (r.sum [one, r.neg (root 5)]), -1 / 10),
    (r.scale (1 / 4) (r.sum [root 5, one]), 3 / 10),
    (r.sum [r.scale (1 / 4) (root 6), r.scale (-1 / 4) (root 2)], 1 / 12),
    (r.sum [r.scale (-1 / 4) (root 6), r.scale (1 / 4) (root 2)], -1 / 12),
    (r.div (r.sum [root 3, minusOne]) (root 8), 1 / 12),
    (r.div (r.sum [one, r.neg (root 3)]) (root 8), -1 / 12),
    (r.sum [r.scale (1 / 4) (root 6), r.scale (1 / 4) (root 2)], 5 / 12),
    (r.div (r.sum [one, root 3]) (root 8), 5 / 12)]

/-- Exact tangents with their angles as multiples of `π`. -/
def tangentTable (r : Rules) : List (Expr × Rat) :=
  let root (n : Int) : Expr := r.sqrt (int n)
  [(r.scale (1 / 3) (root 3), 1 / 6),
    (root 3, 1 / 3),
    (r.sum [root 2, minusOne], 1 / 8),
    (r.sum [one, r.neg (root 2)], -1 / 8),
    (r.sum [one, root 2], 3 / 8),
    (r.sqrt (r.sum [int 5, r.scale (-2) (root 5)]), 1 / 5),
    (r.sqrt (r.sum [int 5, r.scale 2 (root 5)]), 2 / 5),
    (r.sqrt (r.sum [one, r.scale (-2 / 5) (root 5)]), 1 / 10),
    (r.sqrt (r.sum [one, r.scale (2 / 5) (root 5)]), 3 / 10),
    (r.sum [int 2, r.neg (root 3)], 1 / 12),
    (r.sum [int (-2), root 3], -1 / 12),
    (r.sum [int 2, root 3], 5 / 12)]

def lookUpAngle (table : List (Expr × Rat)) (e : Expr) : Option Rat :=
  (table.find? fun p => p.1 == e).map (·.2)

/-- A closed expression without inexact numbers, other than a number. -/
def isExactClosed (e : Expr) : Bool :=
  e.isClosed && !e.isNumber && !(e.anySub fun s => match s with
    | .number (.float ..) => true
    | _ => false)

/-- The number of periods by which a real closed angle lies outside `[low, low + period)`. -/
def periodsOutside (angle : Expr) (low period : Binary) : Int :=
  match angle.approximate with
  | some z => (Binary.div 64 (.sub z.re low) period).floor
  | none => 0

/-- The angle in `[-π / 2, π / 2]` with the sine of a real closed angle. -/
def foldForSine (r : Rules) (angle : Expr) : Expr :=
  let halfPi := (Binary.pi 80).shift (-1)
  let n := periodsOutside angle halfPi.neg (Binary.pi 80)
  let shifted := r.sum [angle, piTimes r (-(n : Rat))]
  if n % 2 = 0 then shifted else r.neg shifted

/-- The angle in `[0, π]` with the cosine of a real closed angle. -/
def foldForCosine (r : Rules) (angle : Expr) : Expr :=
  let n := periodsOutside angle .zero (Binary.pi 80)
  if n % 2 = 0 then r.sum [angle, piTimes r (-(n : Rat))]
  else r.sum [piTimes r (n + 1), r.neg angle]

/-- The angle in `(-π / 2, π / 2]` with the tangent of a real closed angle. -/
def foldForTangent (r : Rules) (angle : Expr) : Expr :=
  let halfPi := (Binary.pi 80).shift (-1)
  let n := periodsOutside angle halfPi.neg (Binary.pi 80)
  r.sum [angle, piTimes r (-(n : Rat))]

def simplifyAsin (r : Rules) (e : Expr) : Option Expr :=
  if e.isOne then some (piTimes r (1 / 2))
  else if e.isMinusOne then some (piTimes r (-1 / 2))
  else if e.hasMinus then some (r.neg (r.apply1 .asin (r.neg e)))
  else
    let angle := if e.rat? == some (1 / 2) then some (1 / 6 : Rat)
      else if e.isExactClosed then lookUpAngle (sineTable r) e else none
    match angle with
    | some q => some (piTimes r q)
    | none =>
      match e with
      | .apply .sin [x] => if x.isComparable then some (foldForSine r x) else none
      | .apply .cos [x] =>
        if x.isComparable then
          some (r.sum [piTimes r (1 / 2), r.neg (foldForCosine r x)])
        else none
      | _ => none

def simplifyAcos (r : Rules) (e : Expr) : Option Expr :=
  if e.isZero then some (piTimes r (1 / 2))
  else if e.isOne then some zero
  else if e.isMinusOne then some pi
  else
    let angleOf (e : Expr) : Option Rat :=
      if e.rat? == some (1 / 2) then some (1 / 6)
      else if e.isExactClosed then lookUpAngle (sineTable r) e else none
    match angleOf e with
    | some q => some (piTimes r (1 / 2 - q))
    | none =>
      match angleOf (r.neg e) with
      | some q => some (piTimes r (1 / 2 + q))
      | none =>
        match e with
        | .apply .cos [x] => if x.isComparable then some (foldForCosine r x) else none
        | .apply .sin [x] =>
          if x.isComparable then
            some (r.sum [piTimes r (1 / 2), r.neg (foldForSine r x)])
          else none
        | _ => none

def simplifyAtan (r : Rules) (e : Expr) : Option Expr :=
  match e with
  | .number (.infinity n) => some (piTimes r (if n then -1 / 2 else 1 / 2))
  | .constant .complexInfinity => some (.constant .indefinite)
  | e =>
    if e.isOne then some (piTimes r (1 / 4))
    else if e.isMinusOne then some (piTimes r (-1 / 4))
    else if e.hasMinus then some (r.neg (r.apply1 .atan (r.neg e)))
    else
      let angle := if e.isExactClosed then lookUpAngle (tangentTable r) e else none
      match angle with
      | some q => some (piTimes r q)
      | none =>
        match e with
        | .apply .tan [x] => if x.isComparable then some (foldForTangent r x) else none
        | _ => none

/-- The angle of the point `(x, y)`, where the signs of the coordinates are known. -/
def simplifyAtan2 (r : Rules) (y x : Expr) : Option Expr :=
  let kx := x.facts
  let ky := y.facts
  match x with
  | .number (.infinity false) => some zero
  | .number (.infinity true) =>
    if ky.isNonnegative then some pi else if ky.isNegative then some (r.neg pi) else none
  | x =>
    let quotientAngle : Expr := r.apply1 .atan (r.div y x)
    if kx.isReal && ky.isReal then
      if kx.isPositive then some quotientAngle
      else if kx.isNegative then
        if ky.isNegative then some (r.sum [quotientAngle, r.neg pi])
        else if ky.isNonnegative then some (r.sum [quotientAngle, pi])
        else none
      else if kx.isZero then
        if ky.isPositive then some (piTimes r (1 / 2))
        else if ky.isNegative then some (piTimes r (-1 / 2))
        else if ky.isZero then some undefined
        else none
      else none
    else if x.isClosed && y.isClosed then
      -- `-i log ((x + i y) / √(x² + y²))`
      some (r.neg (r.product [imaginaryUnit, r.apply1 .log
        (r.div (r.sum [x, r.product [imaginaryUnit, y]]) (hypotenuse r x y))]))
    else none

end CircuitIR.Expr
