import CircuitIR.Expr.Product

/-!
# Canonical powers

A power of numbers is evaluated as far as it stays exact: perfect roots are taken, and what is left
of a root has a base without perfect-power factors. An integer power of a product or of a power goes
inside; any other exponent goes inside only where that is true on the principal branch, for instance
past a positive factor. Powers of infinities follow limits.
-/

namespace CircuitIR.Expr

attribute [local instance (high)] instPowNat

/-! ## Roots of integers -/

/-- The largest `x` with `x ^ k ≤ n`, by fixing its bits from the highest down. -/
def rootFrom (n k : Nat) : Nat → Nat → Nat
  | 0, x => x
  | bit + 1, x =>
    let y := x + 1 <<< bit
    rootFrom n k bit (if y ^ k ≤ n then y else x)

/-- The integer part of the `k`-th root. -/
def natRoot (n k : Nat) : Nat :=
  if k = 0 then 0 else rootFrom n k (Binary.bitLength n / k + 1) 0

/-- The exact `k`-th root, if there is one. -/
def exactRoot? (n k : Nat) : Option Nat :=
  let x := natRoot n k
  if x ^ k = n then some x else none

/-- A number as a power of a smaller one, with the largest exponent. -/
def perfectPower? (n : Nat) : Option (Nat × Nat) :=
  if n < 4 then none
  else
    ((List.range (Binary.bitLength n)).reverse.filter (2 ≤ ·)).findSome? fun k =>
      (exactRoot? n k).map fun x => (x, k)

/-- How often a divisor divides a number, and the remaining cofactor. -/
def divideOut (p : Nat) : Nat → Nat → Nat × Nat
  | 0, n => (0, n)
  | fuel + 1, n =>
    if n % p = 0 then
      let (k, m) := divideOut p fuel (n / p)
      (k + 1, m)
    else (0, n)

/-- Trial division by the divisors from `p` on; a cofactor without small divisors is kept whole. -/
def trialDivision : Nat → Nat → Nat → List (Nat × Nat)
  | 0, _, n => if n = 1 then [] else [(n, 1)]
  | fuel + 1, p, n =>
    if n = 1 then []
    else if n < p * p then [(n, 1)]
    else
      let next := if p = 2 then 3 else p + 2
      if n % p = 0 then
        let (k, m) := divideOut p (Binary.bitLength n) n
        (p, k) :: trialDivision fuel next m
      else trialDivision fuel next n

/-- Divisors up to this bound are searched for. -/
def divisorBound : Nat := 32768

/-- Prime factors with their multiplicities, as far as small divisors find them. -/
def factorize (n : Nat) : List (Nat × Nat) := trialDivision (divisorBound / 2) 2 n

/-- A positive integer to a positive fractional power, with all perfect powers taken out; `none` if
nothing can be taken out. -/
def positiveRoot (r : Rules) (n : Nat) (q : Rat) : Option Expr :=
  let num := q.num.natAbs
  match exactRoot? n q.den with
  | some x => some (int (x ^ num))
  | none =>
    let fs := match perfectPower? n with
      | some f => [f]
      | none => factorize n
    let split : List (Nat × Nat × Nat) :=
      fs.map fun (p, k) => (p, k * num / q.den, k * num % q.den)
    let outside := split.foldl (fun (a : Nat) (p, d, _) => a * p ^ d) 1
    let inside := split.filter fun (_, _, m) => 0 < m
    -- a remaining exponent that shares a divisor with the root's gives a smaller root
    let smaller := inside.filter fun (_, _, m) => Nat.gcd m q.den != 1
    let plain := inside.filter fun (_, _, m) => Nat.gcd m q.den == 1
    let g := plain.foldl (fun (g : Nat) (_, _, m) => Nat.gcd g m) 0
    let base := plain.foldl (fun (a : Nat) (p, _, m) => a * p ^ (m / g)) 1
    if base = n && outside = 1 && smaller.isEmpty then none
    else
      let radicals := smaller.map fun (p, _, m) => r.power (int p) (rat (mkRat m q.den))
      some (r.product (int outside :: radicals ++ [r.power (int base) (rat (mkRat g q.den))]))

/-! ## Numbers -/

/-- A negative integer to a power: the power of minus one is split off. -/
def minusOnePower (r : Rules) (x : Expr) : Option Expr :=
  let k := x.facts
  if k.isOdd then some minusOne
  else if k.isEven then some one
  else
    match x with
    | .number (.exact q) =>
      if q = 1 / 2 then some imaginaryUnit
      else if q.den = 2 then some (r.power imaginaryUnit (int q.num))
      else
        let n := q.num / q.den
        if n = 0 then none
        else some (r.product [r.power minusOne (int n), r.power minusOne (rat (q - n))])
    | .number (.float y p) => some (r.power (.number (.float Binary.one.neg 53)) (.number (.float y p)))
    | .number _ => some undefined
    | _ => none

def zeroPower (r : Rules) (x : Expr) : Option Expr :=
  let k := x.facts
  if k.isPositive then some zero
  else if k.isNegative then some complexInfinity
  else if k.real == some false then some undefined
  else if k.isZero then some one
  else
    let (c, t) := x.splitCoefficient
    if c.isNegative then some (r.power complexInfinity t)
    else if c.isOne then none
    else some (r.power zero t)

def floatPower (r : Rules) (x : Binary) (p : Nat) (e : Expr) : Option Expr :=
  let k := e.facts
  if x.isZero && k.isPositive then some (.number (.float x p))
  else if x.isZero && k.isNegative then some complexInfinity
  else
    match e with
    | .number n =>
      match n with
      | .infinity _ => none
      | .undefined => some undefined
      | _ =>
        match n.integer? with
        | some m =>
          if m = -1 then some (.number (Number.inverse (.float x p)))
          else if 0 < m && m < 32 then some (.number (.rounded (x.pow m.toNat) p))
          else
            let z := ComplexBinary.powInt (p + 16) (.ofReal x) m
            some (.number (.rounded z.re p))
        | none =>
          let root : Bool := match n with
            | .exact q => q.num = 1 && q.den % 2 = 1
            | _ => false
          if root && x.isNegative then
            some (r.product [.power minusOne e, r.power (.number (.float x.neg p)) e])
          else
            let prec := Number.jointPrecision (.float x p) n
            let z := ComplexBinary.pow (prec + 16) (.ofReal x) (.ofReal (n.toBinary prec))
            let re : Expr := .number (.rounded z.re prec)
            if z.isReal then some re
            else
              some (r.sum [re, r.product [.number (.rounded z.im prec), imaginaryUnit]])
    | _ => none

/-- A fraction to a power. -/
def exactPower (r : Rules) (q : Rat) (e : Expr) : Option Expr :=
  if q = 0 then zeroPower r e
  else if q = -1 then minusOnePower r e
  else
    match e with
    | .number (.float y p) =>
      floatPower r (.ofRat p q) p (.number (.float y p))
    | .number (.infinity _) => none
    | .number .undefined => some undefined
    | .number (.exact x) =>
      if x.den = 1 then some (rat (ratPower q x.num))
      else if q.den = 1 && q < 0 && x = 1 / 2 then
        some (r.product [imaginaryUnit, r.power (rat (-q)) half])
      else if x < 0 then
        if q < 0 then some (r.product [r.power minusOne e, r.power (rat (-q)⁻¹) (rat (-x))])
        else some (r.power (rat q⁻¹) (rat (-x)))
      else if q.den = 1 then
        match positiveRoot r q.num.natAbs x with
        | none =>
          if q < 0 then some (r.product [r.power (int q.num.natAbs) e, r.power minusOne e]) else none
        | some root =>
          some (if q < 0 then r.product [root, r.power minusOne e] else root)
      else
        -- `(a / b) ^ x = a ^ x * b ^ (n - x) / b ^ n` with the least integer `n` above `x`
        let n := x.floor + 1
        let tail := [r.power (int q.den) (rat (n - x)), rat (ratPower (q.den : Rat) (-n))]
        some (r.product (if q.num = 1 then tail else r.power (int q.num) e :: tail))
    | e => if q < 0 && e.facts.isEven then some (r.power (rat (-q)) e) else none

def infinityPower (r : Rules) (negative : Bool) (e : Expr) : Option Expr :=
  let k := e.facts
  if negative then
    match e with
    | .number n =>
      match n with
      | .infinity _ => some undefined
      | .undefined => some undefined
      | _ =>
        if n.isInteger && n.isPositive then
          some (.number (.infinity k.isOdd))
        else if n.isNegative then some zero
        else some (r.product [r.power minusOne e, .number (.infinity false)])
    | _ => none
  else if k.isPositive then some (.number (.infinity false))
  else if k.isNegative then some zero
  else if e.isComplexInfinity then some undefined
  else none

/-! ## Other bases -/

def imaginaryPower (r : Rules) (e : Expr) : Option Expr :=
  match e with
  | .number (.exact q) =>
    if q.den = 1 then
      let n := q.num % 4
      some (if n = 0 then one else if n = 1 then imaginaryUnit
        else if n = 2 then minusOne else r.neg imaginaryUnit)
    else
      let n := (q / 2).floor
      let rest : Expr := .power imaginaryUnit (rat (q - 2 * n))
      some (if n % 2 = 1 then .product [minusOne, rest] else rest)
  | _ => none

def isHalfInteger (e : Expr) : Bool :=
  match e with
  | .number (.exact q) => q.den = 2
  | _ => false

/-- A power of a power `(b ^ e) ^ x`: the exponents multiply where the principal branches agree. -/
def powerOfPower (r : Rules) (b e x : Expr) : Option Expr :=
  let kb := b.facts
  let ke := e.facts
  let merged (b : Expr) : Expr := r.power b (r.product [e, x])
  if x.facts.isInteger then some (merged b)
  else if !ke.isReal then none
  else if e.isMinusOne && isHalfInteger x && kb.isNegative then
    some (r.product [r.power minusOne x, r.power (r.neg b) (r.product [e, x])])
  else if e.isMinusOne && isHalfInteger x && kb.negative == some false then
    some (r.power b (r.neg x))
  else
    let b := if ke.isEven && kb.isReal then r.apply .abs [b] else b
    let small : Bool := match e with
      | .number n => n.abs.lt .one
      | _ => false
    if small || e.isOne || b.facts.isNonnegative then some (merged b) else none

/-- How a factor behaves under a fractional power. -/
inductive FactorSign where
  | nonnegative
  | negative
  | other
deriving DecidableEq

def factorSign (e : Expr) : FactorSign :=
  let k := e.facts
  if k.isNonnegative then .nonnegative
  else if k.isNegative then .negative
  else .other

/-- A fractional power of a product: nonnegative factors are taken out, pairs of negative ones too,
and the sign that is left stays with the remaining factors. -/
def fractionalPowerOfProduct (r : Rules) (fs : List Expr) (x : Expr) : Expr :=
  let isUnit (e : Expr) : Bool := match e with
    | .constant .i => true
    | _ => false
  let units := (fs.filter isUnit).length % 4
  let fs := fs.filter fun e => !isUnit e
  let nonnegative := fs.filter fun e => factorSign e = .nonnegative
  let negative := fs.filter fun e => factorSign e = .negative
  let other := fs.filter fun e => factorSign e = .other
  -- powers of the imaginary unit count as a factor of their own or as a sign
  let (nonnegative, negative, other) : List Expr × List Expr × List Expr :=
    if units = 0 then (nonnegative, negative, other)
    else if units = 1 then (nonnegative, negative, other ++ [imaginaryUnit])
    else
      let other := if units = 3 then other ++ [imaginaryUnit] else other
      match negative.reverse with
      | last :: rest =>
        let e := r.neg last
        (if e.isOne then nonnegative else nonnegative ++ [e], rest.reverse, other)
      | [] => (nonnegative, [minusOne], other)
  let (nonnegative, other) : List Expr × List Expr :=
    match negative with
    | [] => (nonnegative, other)
    | [n] =>
      if other.isEmpty then (nonnegative, [n])
      else if n.isNumber && !n.isMinusOne then
        (nonnegative ++ [r.neg n], other ++ [minusOne])
      else (nonnegative, other ++ [n])
    | n :: rest =>
      let first := other.isEmpty && n.isNumber
      let pending := if first then rest else negative
      let sign := if first then n else one
      let sign := if pending.length % 2 = 1 then r.neg sign else sign
      (nonnegative ++ pending.map r.neg, if sign.isOne then other else other ++ [sign])
  let taken := nonnegative.map fun b => r.power b x
  let kept :=
    match other with
    | [] => []
    | [e] => [r.power e x]
    | es =>
      match r.product es with
      | .product gs => [.power (.product gs) x]
      | e => [r.power e x]
  r.product (taken ++ kept)

def powerOfProduct (r : Rules) (fs : List Expr) (x : Expr) : Option Expr :=
  match x with
  | .number (.exact q) =>
    if q.den = 1 then some (r.product (fs.map fun f => r.power f x))
    else some (fractionalPowerOfProduct r fs x)
  | .number (.float ..) => some (fractionalPowerOfProduct r fs x)
  | _ => none

/-- The real and imaginary parts of a number plus a number times the imaginary unit. -/
def complexParts? (e : Expr) : Option (Number × Number) :=
  let imaginary? : Expr → Option Number
    | .constant .i => some .one
    | .product [.number n, .constant .i] => some n
    | _ => none
  match e with
  | .sum [.number a, b] => (imaginary? b).map fun n => (a, n)
  | _ => none

/-- A power of a sum: only the inverse of an exact complex number is simplified. -/
def powerOfSum (r : Rules) (ts : List Expr) (x : Expr) : Option Expr :=
  match complexParts? (.sum ts), x.isMinusOne with
  | some (a, b), true =>
    let norm := (a.mul a).add (b.mul b)
    some (r.product [.number norm.inverse, .sum [.number a, r.product [.number b.neg, imaginaryUnit]]])
  | _, _ => none

/-- A power of an absolute value: an even power of a real number needs no absolute value. -/
def powerOfAbs (r : Rules) (a x : Expr) : Option Expr :=
  if a.facts.isReal && x.facts.isInteger then
    if x.facts.isEven then some (r.power a x)
    else
      match x with
      | .number (.exact q) =>
        if q.den = 1 && q != -1 then
          some (r.product [r.power a (rat (q - 1)), .apply .abs [a]])
        else none
      | _ => none
  else none

/-- An exponent of the form `t / log b` for the base `b`, without the logarithm. -/
def exponentOverLog? (r : Rules) (b x : Expr) : Option Expr :=
  let isInverseLog (e : Expr) : Bool := match e with
    | .power (.apply .log [c]) n => n.isMinusOne && c == b
    | _ => false
  if x.factors.any isInverseLog then
    some (r.product (x.factors.filter fun e => !isInverseLog e))
  else none

/-- The rule that belongs to the kind of the base; `none` if the power stays as it is. -/
def powerOfBase (r : Rules) (b x : Expr) : Option Expr :=
  match b with
  | .number (.exact q) => exactPower r q x
  | .number (.float y p) => floatPower r y p x
  | .number (.infinity n) => infinityPower r n x
  | .number .undefined => some undefined
  | .constant .e => some (r.apply .exp [x])
  | .constant .i => imaginaryPower r x
  | .constant .complexInfinity =>
    match x with
    | .number n =>
      if n.isZero then some undefined
      else if n.isPositive then some complexInfinity
      else some zero
    | x => if x.isComplexInfinity then some undefined else none
  | .constant _ => none
  | .symbol _ => none
  | .power c e => powerOfPower r c e x
  | .product fs => powerOfProduct r fs x
  | .sum ts => powerOfSum r ts x
  | .apply .exp [e] => powerOfPower r (.constant .e) e x
  | .apply .abs [a] => powerOfAbs r a x
  | .apply _ _ => none

/-- The limit of powers with growing exponents. -/
def infinitePower (b : Expr) : Option Expr :=
  match (if b.isClosed then b.approximate else none) with
  | some z =>
    if z.isReal then
      if Binary.lt .one z.re then some (.number (.infinity false))
      else if Binary.lt z.re.abs .one then some zero
      else if Binary.lt z.re Binary.one.neg then some complexInfinity
      else some undefined
    else none
  | none => none

/-- The canonical power of a canonical base and exponent. -/
def canonicalPower (r : Rules) (b x : Expr) : Expr :=
  if x.isComplexInfinity then undefined
  else if x.isExactZero then one
  else if x.isOne then b
  else if x.isMinusOne && b.isZero then complexInfinity
  else
    let viaLimit := match x with
      | .number (.infinity false) => infinitePower b
      | .number (.infinity true) =>
        if b.isZero then some complexInfinity else infinitePower (r.inverse b)
      | _ => none
    match viaLimit with
    | some e => e
    | none =>
      -- a number with a minus sign under an integer exponent
      let movable := x.int?.isSome && b.hasMinus && (b.isNumber || (b.isProduct && b.isClosed))
      if movable && x.facts.isOdd && !b.isMinusOne then r.neg (r.power (r.neg b) x)
      else
        let b := if movable && x.facts.isEven then r.neg b else b
        if b.isUndefined || x.isUndefined then undefined
        else if b.isOne then (if x.facts.isInfinite then undefined else one)
        else
          let overLog :=
            match b, x with
            | .constant .e, _ => none
            | _, .product _ => exponentOverLog? r b x
            | _, .power .. => exponentOverLog? r b x
            | _, _ => none
          match overLog with
          | some e => r.apply .exp [e]
          | none => (powerOfBase r b x).getD (.power b x)

end CircuitIR.Expr
