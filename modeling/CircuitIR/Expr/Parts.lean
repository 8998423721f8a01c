import CircuitIR.Expr.Exponential

/-!
# Absolute value, sign, real and imaginary part

The absolute value of a product splits into the factors whose absolute value is known and the
others; a denominator is taken out where only it holds symbols. The sign drops factors of known
sign. Real and imaginary parts are taken term by term.
-/

namespace CircuitIR.Expr

/-- An exponent that makes a factor a denominator. -/
def isDenominatorExponent (x : Expr) : Bool :=
  x.facts.isNegative || (x.isProduct && !x.facts.isPositive && x.hasMinus)

/-- Splits an expression into a numerator without symbols and a denominator with some. -/
def symbolicDenominator? (r : Rules) (e : Expr) : Option (Expr × Expr) :=
  let inDenominator (f : Expr) : Bool :=
    match f with
    | .power _ x => !f.isClosed && isDenominatorExponent x
    | .apply .exp [x] => !f.isClosed && isDenominatorExponent x
    | _ => false
  let fs := e.factors
  let below := fs.filter inDenominator
  let above := fs.filter fun f => !inDenominator f
  if below.isEmpty || !above.all isClosed then none
  else
    let inverted := below.map fun f =>
      match f with
      | .power b x => r.power b (r.neg x)
      | .apply .exp [x] => r.apply1 .exp (r.neg x)
      | f => f
    some (r.product above, r.product inverted)

mutual

/-- Writes every sum from which a minus sign can be taken out as minus its negative. -/
def normalizeSigns (r : Rules) : Expr → Expr
  | .number n => .number n
  | .constant c => .constant c
  | .symbol s => .symbol s
  | .power b x => r.power (normalizeSigns r b) (normalizeSigns r x)
  | .product es => r.product (normalizeSignsAll r es)
  | .sum es =>
    let e := Expr.sum es
    if e.hasMinus then .product [minusOne, r.neg e] else e
  | .apply f es => r.apply f (normalizeSignsAll r es)

def normalizeSignsAll (r : Rules) : List Expr → List Expr
  | [] => []
  | e :: es => normalizeSigns r e :: normalizeSignsAll r es

end

def isAbs : Expr → Bool
  | .apply .abs _ => true
  | _ => false

/-- The absolute value of a product, or `none` if no factor is known. -/
def absOfProduct (r : Rules) (fs : List Expr) : Option Expr :=
  let (known, unknown) := fs.foldl
    (fun ((known, unknown) : List Expr × List Expr) t =>
      match t with
      | .power b x =>
        if x.facts.isInteger && x.facts.isNegative then
          let b' := r.apply1 .abs b
          if b'.isAbs then (known, unknown ++ [t]) else (known ++ [r.power b' x], unknown)
        else
          let t' := r.apply1 .abs t
          if t'.isAbs then (known, unknown ++ [t]) else (known ++ [t'], unknown)
      | t =>
        let t' := r.apply1 .abs t
        if t'.isAbs then (known, unknown ++ [t]) else (known ++ [t'], unknown))
    ([], [])
  let rest : List Expr := if unknown.isEmpty then [] else [.apply .abs [r.product unknown]]
  some (r.product (known ++ rest))

def absOfPower (r : Rules) (b x : Expr) : Option Expr :=
  let kb := b.facts
  if kb.isReal then
    if x.facts.isInteger then
      if x.facts.isEven then some (.power b x)
      else if b.isMinusOne then some one
      else some (r.power (r.apply1 .abs b) x)
    else if kb.isNonnegative then some (r.power b (r.apply1 .re x))
    else if kb.isNegative then
      some (r.product [r.power (r.neg b) (r.apply1 .re x),
        r.apply1 .exp (r.neg (r.product [pi, r.apply1 .im x]))])
    else none
  else none

/-- The modulus of a closed complex sum `a + b i`. -/
def absOfClosed (r : Rules) (e : Expr) : Option Expr :=
  match e with
  | .sum ts =>
    let imaginary := ts.filterMap imaginaryCoefficient?
    let real := ts.filter fun t => t.imaginaryCoefficient?.isNone
    if !imaginary.isEmpty && imaginary.all isComparable && real.all isComparable then
      some (r.sqrt (r.sum [r.square (r.sum real), r.square (r.sum imaginary)]))
    else none
  | _ => none

def simplifyAbs (r : Rules) (e : Expr) : Option Expr :=
  match e with
  | .number n => if n == .undefined then some undefined else some (.number n.abs)
  | .constant .complexInfinity => some (.number (.infinity false))
  | .symbol _ => none
  | e =>
    let e' := normalizeSigns r e
    match symbolicDenominator? r e' with
    | some (n, d) => some (r.div (r.apply1 .abs n) (r.apply1 .abs d))
    | none =>
      let k := e'.facts
      match e' with
      | .product fs => absOfProduct r fs
      | .power b x =>
        match absOfPower r b x with
        | some v => some v
        | none =>
          if k.isNonnegative then some e' else if k.isNonpositive then some (r.neg e') else none
      | .apply .exp [x] => some (r.apply1 .exp (r.apply1 .re x))
      | e' =>
        if k.isZero then some zero
        else if k.isNonnegative then some e'
        else if k.isNonpositive then some (r.neg e')
        else if e'.isImaginary then
          match e'.imaginaryCoefficient? with
          | some c => some (r.apply1 .abs c)
          | none => none
        else if e'.isClosed && !k.isReal then absOfClosed r e'
        else if e' == e then none
        else some (.apply .abs [e'])

def simplifySign (r : Rules) (e : Expr) : Option Expr :=
  let k := e.facts
  match e with
  | .number .undefined => some undefined
  | .product fs =>
    let (c, rest) := e.splitCoefficient
    let others := if c.isOne then fs else rest.factors
    let (s, unknown) := others.foldl
      (fun ((s, unknown) : Expr × List Expr) f =>
        let kf := f.facts
        if kf.isNegative then (r.neg s, unknown)
        else if kf.isPositive then (s, unknown)
        else
          match f with
          | .constant .i => (r.product [s, imaginaryUnit], unknown)
          | f => (s, unknown ++ [f]))
      (if c.isNegative then minusOne else one, [])
    if c.isOne && unknown.length = others.length then none
    else some (r.product [s, r.apply1 .sign (ofFactors unknown)])
  | .constant .i => some imaginaryUnit
  | .apply .sign _ => some e
  | _ =>
    if k.isZero then some zero
    else if k.isPositive then some one
    else if k.isNegative then some minusOne
    else none

/-! ## Real and imaginary parts -/

/-- Binomial coefficients of a row, by repeated sums. -/
def binomialRow : Nat → List Nat
  | 0 => [1]
  | n + 1 =>
    let row := binomialRow n
    (0 :: row).zipWith (· + ·) (row ++ [0])

/-- Real and imaginary part of `(a + b i) ^ n`. -/
def powerParts (r : Rules) (a b : Expr) (n : Nat) : Expr × Expr :=
  let terms := (binomialRow n).mapIdx fun (k : Nat) (c : Nat) =>
    -- the sign of `i ^ k`, whose parity tells the part
    let sign : Int := if k % 4 < 2 then 1 else -1
    (k, r.product [int (sign * (c : Int)), r.power a (int (n - k : Nat)), r.power b (int k)])
  (r.sum ((terms.filter fun t => t.1 % 2 = 0).map (·.2)),
    r.sum ((terms.filter fun t => t.1 % 2 = 1).map (·.2)))

/-- Real and imaginary part of one term; `none` if they are not expressed by those of its parts. -/
def termParts (r : Rules) (t : Expr) : Option (Expr × Expr) :=
  if t.facts.isReal then some (t, zero)
  else
    match t with
    | .symbol _ => some (r.apply1 .re t, r.apply1 .im t)
    | .power b (.number (.exact q)) =>
      if q.den = 1 && 0 ≤ q.num && !b.isProduct then
        some (powerParts r (r.apply1 .re b) (r.apply1 .im b) q.num.toNat)
      else none
    | .product fs =>
      let real := fs.filter fun f => f.facts.isReal
      match fs.filter fun f => !f.facts.isReal with
      | [f] =>
        if real.isEmpty then none
        else some (r.product (real ++ [r.apply1 .re f]), r.product (real ++ [r.apply1 .im f]))
      | others =>
        if real.isEmpty then none
        else
          let rest := ofFactors others
          some (r.product (real ++ [r.apply1 .re rest]), r.product (real ++ [r.apply1 .im rest]))
    | _ => none

/-- The real part of an expression that is not a real number. -/
def simplifyRe (r : Rules) (e : Expr) : Option Expr :=
  if e.isComplexInfinity then some undefined
  else if e.facts.isReal then some e
  else
    match e.imaginaryCoefficient? with
    | some c => if c.facts.isReal then some zero else some (r.neg (r.apply1 .im c))
    | none =>
      match e with
      | .sum ts =>
        some (r.sum (ts.map fun t =>
          match t.imaginaryCoefficient? with
          | some c => r.neg (r.apply1 .im c)
          | none => r.apply1 .re t))
      | .symbol _ => none
      | e => (termParts r e).map (·.1)

def simplifyIm (r : Rules) (e : Expr) : Option Expr :=
  if e.isComplexInfinity then some undefined
  else if e.facts.isReal then some zero
  else
    match e.imaginaryCoefficient? with
    | some c => some (r.apply1 .re c)
    | none =>
      match e with
      | .sum ts =>
        some (r.sum (ts.map fun t =>
          match t.imaginaryCoefficient? with
          | some c => r.apply1 .re c
          | none => r.apply1 .im t))
      | .symbol _ => none
      | e => (termParts r e).map (·.2)

end CircuitIR.Expr
