import CircuitIR.Expr.Parts

/-!
# Rounding, factorials and remainders

Integer parts of sums leave the rounding functions, closed arguments are rounded by their value.
Factorials of integers are evaluated. A remainder is evaluated for numbers and for known ratios;
otherwise common factors of both operands are taken out and the terms of a sum are reduced one by
one.
-/

namespace CircuitIR.Expr

/-! ## Rounding -/

inductive Rounding where
  | down
  | up
deriving DecidableEq

def Rounding.function : Rounding → FunctionName
  | down => .floor
  | up => .ceiling

/-- The integer next to a binary number; a number within the accuracy of approximations counts as the
integer. -/
def Rounding.nearInteger (d : Rounding) (x : Binary) : Int :=
  let nearest := (Binary.add x (Binary.shift .one (-1))).floor
  let distance := (Binary.sub x (.ofInt nearest)).abs
  if Binary.lt (distance.shift 56) (Binary.add x.abs .one) then nearest
  else match d with
    | down => x.floor
    | up => -(x.neg.floor)

/-- Exact rounding of a finite number. -/
def Rounding.ofNumber (d : Rounding) (n : Number) : Number :=
  match d with
  | down => match n.floor? with
    | some k => .ofInt k
    | none => n
  | up => match n.neg.floor? with
    | some k => .ofInt (-k)
    | none => n

def isRounded : Expr → Bool
  | .apply .floor _ => true
  | .apply .ceiling _ => true
  | _ => false

/-- Rounding of a closed expression that is not a number, by its value. -/
def roundClosed (r : Rules) (d : Rounding) (e : Expr) : Option Expr :=
  e.approximate.map fun z =>
    r.sum [int (d.nearInteger z.re), r.product [int (d.nearInteger z.im), imaginaryUnit]]

def simplifyRounding (r : Rules) (d : Rounding) (e : Expr) : Option Expr :=
  let leave (e : Expr) : Expr := .apply d.function [e]
  match e with
  | .number n => some (.number (d.ofNumber n))
  | .constant .complexInfinity => some e
  | e =>
    if e.isRounded || (r.neg e).isRounded || e.facts.isInteger then some e
    else if e.isClosed then roundClosed r d e
    else
      let ts := e.terms
      let whole (t : Expr) : Option Expr :=
        match t with
        | .number n => n.integerValue?.map int
        | t => if t.facts.isInteger then some t else none
      let ipart := ts.filterMap whole
      if ipart.isEmpty then none
      else
        let rest := r.sum (ts.filter fun t => (whole t).isNone)
        if rest.isZero then some (r.sum ipart)
        else some (r.sum (ipart ++ [if rest.isRounded then rest else leave rest]))

/-! ## Factorials -/

/-- The product `1 * 2 * ... * n`. -/
def natFactorial : Nat → Nat
  | 0 => 1
  | n + 1 => (n + 1) * natFactorial n

/-- The product of `n`, `n - 2`, ... down to one or two. -/
def natDoubleFactorial : Nat → Nat
  | 0 => 1
  | 1 => 1
  | n + 2 => (n + 2) * natDoubleFactorial n

def simplifyFactorial (e : Expr) : Option Expr :=
  match e with
  | .number (.infinity false) => some e
  | .number n =>
    if n.isZero then some one
    else
      match n.integer? with
      | some k => some (if k < 0 then complexInfinity else int (natFactorial k.toNat))
      | none => none
  | _ => none

/-- The double factorial: of a nonnegative integer, or of a negative odd one as the inverse of a
double factorial with a sign. -/
def simplifyDoubleFactorial (e : Expr) : Option Expr :=
  match e.int? with
  | some k =>
    if 0 ≤ k then some (int (natDoubleFactorial k.toNat))
    else if k % 2 = 1 then
      let sign : Int := if (1 - k) / 2 % 2 = 0 then 1 else -1
      some (rat (mkRat (k * sign) (natDoubleFactorial (-k).toNat)))
    else none
  | none => none

/-! ## Remainders -/

/-- Truncation toward zero of the value of a closed real expression. -/
def truncated? (e : Expr) : Option Int :=
  match e with
  | .number n => n.toRat?.map fun q => if q < 0 then -(-q).floor else q.floor
  | e =>
    if e.isClosed then
      match e.approximate with
      | some z =>
        if z.isReal then
          some (if z.re.isNegative then -(Rounding.nearInteger .down z.re.neg)
            else Rounding.nearInteger .down z.re)
        else none
      | none => none
    else none

/-- The remainder where both operands are numbers or their ratio is known. -/
def remainderOfKnown (r : Rules) (p q : Expr) : Option Expr :=
  let kp := p.facts
  if p.isUndefined || q.isUndefined || kp.isInfinite || q.facts.isInfinite then some undefined
  else if p.isExactZero || p == q || p == r.neg q || (kp.isInteger && q.isOne) then some zero
  else
    match p, q with
    | .number m, .number n => some (.number (m.modulo n))
    | _, _ =>
      if q.rat? == some 2 && kp.isEven then some zero
      else if q.rat? == some 2 && kp.isOdd then some one
      else
        let ratio := r.div p q
        if ratio.facts.isInteger then some zero
        else
          match truncated? ratio with
          | some d =>
            let rest := r.sub p (r.product [int d, q])
            some (if (r.product [rest, q]).facts.isNegative then r.sum [rest, q] else rest)
          | none => none

/-- Common factors of terms: the divisor of the coefficients, whether one of them is inexact, and
powers of bases. -/
structure CommonFactor where
  divisor : Nat
  inexact : Bool
  powers : List (Expr × Int)

def termPowers (t : Expr) : List (Expr × Int) :=
  let rest := t.splitCoefficient.2
  if rest.isOne then [] else rest.factors.map decomposePower

/-- The common factor of several terms. With a fraction among the coefficients their divisor is
one. -/
def commonFactor (ts : List Expr) : CommonFactor :=
  let coefficients := ts.map fun t => t.splitCoefficient.1
  let inexact := coefficients.any Number.isFloat
  let divisor :=
    if coefficients.all Number.isInteger then
      (coefficients.filterMap Number.integer?).foldl (fun (g : Nat) k => Nat.gcd g k.natAbs) 0
    else 1
  let powers :=
    match ts.map termPowers with
    | [] => []
    | first :: rest =>
      first.filterMap fun (b, n) =>
        let least := rest.foldl
          (fun (m : Int) ps => min m (((ps.find? fun p => p.1 == b).map (·.2)).getD 0)) n
        if 0 < least then some (b, least) else none
  ⟨max divisor 1, inexact, powers⟩

/-- The powers of a common factor as an expression. -/
def CommonFactor.symbolic (r : Rules) (c : CommonFactor) : Expr :=
  r.product (c.powers.map fun (b, n) => r.power b (int n))

/-- Divides a sum by a product term by term and takes out the remaining common powers. -/
def divideTerms (r : Rules) (e d : Expr) : Expr :=
  let inverse := r.inverse d
  match e with
  | .sum ts =>
    let us := ts.map fun t => r.product [t, inverse]
    let c := (commonFactor us).symbolic r
    if c.isOne then r.sum us
    else
      let inner := r.inverse c
      r.product [c, r.sum (us.map fun u => r.product [u, inner])]
  | e => r.product [e, inverse]

def isRemainder : Expr → Bool
  | .apply .modulus _ => true
  | _ => false

def remainderParts? : Expr → Option (Expr × Expr)
  | .apply .modulus [p, q] => some (p, q)
  | _ => none

def nestedRemainder (r : Rules) (p q : Expr) : Option Expr :=
  match remainderParts? p with
  | some (a, n) =>
    if (r.apply .modulus [n, q]).isZero then some (r.apply .modulus [a, q])
    else if (r.product [n, r.sub q n]).facts.isNonnegative then some p
    else none
  | none =>
    match remainderParts? (r.neg p) with
    | some (a, n) =>
      if (r.apply .modulus [n, q]).isZero then some (r.apply .modulus [r.neg a, q])
      else if (r.product [n, r.sum [q, n]]).facts.isNonpositive then some p
      else none
    | none =>
      match p with
      | .sum ts =>
        let inner := ts.filterMap remainderParts?
        if !inner.isEmpty && inner.all (fun i => i.2 == q) then
          let net := r.sum (ts.filter (fun t => !t.isRemainder) ++ inner.map (·.1))
          some (r.apply .modulus [net, q])
        else none
      | _ => none

/-- The number of remainders inside an expression. -/
def hasMoreRemainders (new old : Expr) : Bool :=
  (new.anySub isRemainder) && !(old.anySub isRemainder)

def simplifyModulus (r : Rules) (p q : Expr) : Option Expr :=
  if q.facts.isZero then none
  else
    match remainderOfKnown r p q with
    | some e => some e
    | none =>
      match nestedRemainder r p q with
      | some e => some e
      | none =>
        let c := commonFactor (p.terms ++ q.terms)
        let symbolic := c.symbolic r
        let divisor := r.product [int c.divisor, symbolic]
        let (p₀, q₀) :=
          if divisor.isOne then (p, q) else (divideTerms r p divisor, divideTerms r q divisor)
        let (outside, p₁, q₁) : Expr × Expr × Expr :=
          match p₀ with
          | .sum ts =>
            (divisor, r.sum (ts.map fun t =>
              let m := r.apply .modulus [t, q₀]
              if hasMoreRemainders m t then t else m), q₀)
          | _ =>
            let (cp, tp) := p₀.splitCoefficient
            let (cq, tq) := q₀.splitCoefficient
            if (cp.isFloat || cq.isFloat) && (cp.modulo cq).isZero then
              let k : Int := match cp.toRat?, cq.toRat? with
                | some a, some b => let d := a / b
                  if d < 0 then -(-d).floor else d.floor
                | _, _ => 1
              (r.product [divisor, .number cq], r.product [int k, tp], tq)
            else (divisor, r.product [.number cp, tp], r.product [.number cq, tq])
        let scaled := !(outside == divisor)
        let (outside, p₂, q₂) : Expr × Expr × Expr :=
          if p₁.hasMinus && q₁.hasMinus then (r.neg outside, r.neg p₁, r.neg q₁)
          else (outside, p₁, q₁)
        match remainderOfKnown r p₂ q₂ with
        | some e => some (r.product [e, outside])
        | none =>
          let p₃ := if c.inexact && !scaled then r.product [.number (.float .one 53), p₂] else p₂
          let inner : Expr :=
            if (p₂ == p₀ && q₂ == q₀) || (c.inexact && outside.isOne) then .apply .modulus [p₃, q₂]
            else r.apply .modulus [p₃, q₂]
          if outside.isOne && inner == .apply .modulus [p, q] then none
          else some (r.product [outside, inner])

end CircuitIR.Expr
