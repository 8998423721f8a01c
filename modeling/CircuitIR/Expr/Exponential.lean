import CircuitIR.Expr.Circular

/-!
# Exponential, logarithm and hyperbolic functions

The exponential takes known factors out of its argument: logarithms, numbers and multiples of `π i`.
The logarithm undoes an exponential of a real number, and splits the sign or the imaginary unit off
a number. Hyperbolic functions of imaginary arguments are trigonometric ones.
-/

namespace CircuitIR.Expr

/-! ## Exponential -/

/-- The exponential of a multiple of `π i`. -/
def expOfTurn (r : Rules) (q : Rat) : Option Expr :=
  if q.den = 1 then some (if q.num % 2 = 0 then one else minusOne)
  else if q.den = 2 then
    some (if (q + 1 / 2).num % 2 = 0 then r.neg imaginaryUnit else imaginaryUnit)
  else
    let m := ratModulo q 2
    let m := if 1 < m then m - 2 else m
    if m = q then none
    else some (r.apply1 .exp (r.product [rat m, pi, imaginaryUnit]))

/-- The coefficient of `π i`. -/
def turnCoefficient? (e : Expr) : Option Expr :=
  match coefficientOf .i e with
  | some c => coefficientOf .pi c
  | none => none

def isLog : Expr → Bool
  | .apply .log _ => true
  | _ => false

/-- `exp (c * log x)` is `x ^ c` for a real closed factor `c`. -/
def expOfLogMultiple (r : Rules) (e : Expr) : Option Expr :=
  let (c, t) := e.splitCoefficient
  if !c.isFinite then
    match c, (if t.isClosed then t.approximate else none) with
    | .infinity n, some z =>
      if z.re.isZero then some undefined
      else if n != z.re.isNegative then some zero
      else if z.isReal then some (.number (.infinity false))
      else some complexInfinity
    | _, _ => none
  else
    let fs := t.factors
    match fs.filter isLog with
    | [.apply .log [x]] =>
      let others := fs.filter fun f => !isLog f
      if others.all isComparable then some (r.power x (r.product (.number c :: others))) else none
    | _ => none

/-- The exponential of a sum: terms whose exponential simplifies become factors, except the number
one. -/
def expOfSum (r : Rules) (ts : List Expr) : Option Expr :=
  let (out, kept, changed) := ts.foldl
    (fun ((out, kept, changed) : List Expr × List Expr × Bool) t =>
      if t.isOne then (out, kept ++ [t], changed)
      else
        match r.apply1 .exp t with
        | .apply .exp [u] => (out, kept ++ [u], changed || !(u == t))
        | e => (out ++ [e], kept, changed))
    ([], [], false)
  if out.isEmpty && !changed then none
  else some (r.product (out ++ [.apply .exp [r.sum kept]]))

def simplifyExp (r : Rules) (e : Expr) : Option Expr :=
  match e with
  | .number n =>
    if n.isZero then some one
    else if n.isOne then some (.constant .e)
    else
      match n with
      | .infinity negative => some (if negative then zero else .number (.infinity false))
      | _ => none
  | .apply .log [x] => some x
  | .product _ =>
    let turn : Option Expr :=
      match turnCoefficient? e with
      | some (.number (.exact q)) => expOfTurn r q
      | _ => none
    match turn with
    | some v => some v
    | none => expOfLogMultiple r e
  | .sum ts => expOfSum r ts
  | _ => none

/-! ## Logarithm -/

def simplifyLog (r : Rules) (e : Expr) : Option Expr :=
  let log (e : Expr) : Expr := r.apply1 .log e
  match e with
  | .number (.infinity _) => some (.number (.infinity false))
  | .number (.exact q) =>
    if q = 0 then some complexInfinity
    else if q = 1 then some zero
    else if q.num = 1 then some (r.neg (log (int q.den)))
    else if q < 0 then some (r.sum [r.product [pi, imaginaryUnit], log (rat (-q))])
    else none
  | .constant .complexInfinity => some complexInfinity
  | .constant .e => some one
  | .constant .i => some (r.product [half, pi, imaginaryUnit])
  | .apply .exp [x] =>
    if x.facts.isReal then some x
    else
      match x.imaginaryCoefficient? with
      | some c =>
        if c.isComparable then
          let n := periodsOutside c (Binary.pi 80).neg ((Binary.pi 80).shift 1)
          some (r.product [imaginaryUnit, r.sum [c, piTimes r (-2 * (n : Rat))]])
        else none
      | none => none
  | e =>
    let k := e.facts
    if e.isClosed && k.isNegative then
      some (r.sum [r.product [pi, imaginaryUnit], log (r.neg e)])
    else if k.isZero then some complexInfinity
    else
      match e.imaginaryCoefficient? with
      | some (.number (.exact q)) =>
        if 0 ≤ q then some (r.sum [r.product [half, pi, imaginaryUnit], log (rat q)])
        else some (r.sum [r.product [rat (-1 / 2), pi, imaginaryUnit], log (rat (-q))])
      | _ => none

/-! ## Logarithm to a base -/

/-- How often an integer above one divides a nonzero integer. -/
def multiplicityOfInt (base n : Int) : Int :=
  ((divideFully base.natAbs (Binary.bitLength n.natAbs) n.natAbs : Nat) : Int)
where
  /-- Counts the divisions that come out even. -/
  divideFully (b : Nat) : Nat → Nat → Nat
    | 0, _ => 0
    | fuel + 1, n => if n % b = 0 then divideFully b fuel (n / b) + 1 else 0

/-- The exponent of a base in a number, for fractions; `none` where it is not defined. -/
def multiplicity? (base n : Rat) : Option Int :=
  let count (b m : Int) : Option Int :=
    if b < 2 || m = 0 then none else some (multiplicityOfInt b m)
  if base.den = 1 && n.den = 1 then count base.num n.num
  else if base.den = 1 then
    if n.num = 1 then (count base.num n.den).map fun k => -k
    else
      match count base.num n.num, count base.num n.den with
      | some a, some b => some (a - b)
      | _, _ => none
  else if base.num = 1 then
    if n.den = 1 then count base.den n.num
    else
      match count base.den n.num, count base.den n.den with
      | some a, some b => some (b - a)
      | _, _ => none
  else
    match count base.num n.num, count base.den n.den, count base.den n.num,
        count base.num n.den with
    | some a, some b, some c, some d => some (min a b - min c d)
    | _, _, _, _ => none

/-- The logarithm of an expression to a base. Powers of a rational base are taken out of a rational
number. -/
def logToBase (r : Rules) (e base : Expr) : Expr :=
  let log (e : Expr) : Expr := r.apply1 .log e
  if base.isOne then (if e.isOne then undefined else complexInfinity)
  else
    let quotient (e : Expr) : Expr :=
      if base == .constant .e then log e else r.div (log e) (log base)
    match base.rat?, e.rat? with
    | some b, some q =>
      match multiplicity? b q with
      | some k =>
        if k = 0 then r.div (log e) (log base)
        else
          let rest := if 0 ≤ k then q / b ^ k.toNat else q * b ^ (-k).toNat
          r.sum [int k, r.div (log (rat rest)) (log base)]
      | none => quotient e
    | _, _ => quotient e

/-! ## Hyperbolic functions -/

def simplifySinh (r : Rules) (e : Expr) : Option Expr :=
  match e with
  | .number (.infinity _) => some e
  | e =>
    match e.imaginaryCoefficient? with
    | some c => some (r.product [imaginaryUnit, r.apply1 .sin c])
    | none => if e.hasMinus then some (r.neg (r.apply1 .sinh (r.neg e))) else none

def simplifyCosh (r : Rules) (e : Expr) : Option Expr :=
  match e with
  | .number (.infinity _) => some (.number (.infinity false))
  | e =>
    match e.imaginaryCoefficient? with
    | some c => some (r.apply1 .cos c)
    | none => if e.hasMinus then some (r.apply1 .cosh (r.neg e)) else none

def simplifyTanh (r : Rules) (e : Expr) : Option Expr :=
  match e with
  | .number (.infinity n) => some (if n then minusOne else one)
  | e =>
    match e.imaginaryCoefficient? with
    | some c => some (r.product [imaginaryUnit, r.apply1 .tan c])
    | none => if e.hasMinus then some (r.neg (r.apply1 .tanh (r.neg e))) else none

def simplifyCoth (r : Rules) (e : Expr) : Option Expr :=
  match e with
  | .number (.infinity n) => some (if n then minusOne else one)
  | e =>
    if e.facts.isZero then some complexInfinity
    else
      match e.imaginaryCoefficient? with
      | some c => some (r.neg (r.product [imaginaryUnit, r.apply1 .cot c]))
      | none => if e.hasMinus then some (r.neg (r.apply1 .coth (r.neg e))) else none

end CircuitIR.Expr
