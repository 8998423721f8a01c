import CircuitIR.Expr.Sum

/-!
# Canonical products

Nested products are flattened and numbers multiplied. Powers of equal bases are merged when their
exponents differ by a number only. Roots of positive fractions are combined with one another: equal
exponents multiply the bases, common divisors of the bases add the exponents, and integer parts of
exponents move into the number. Minus one and the imaginary unit are collected as one power of minus
one. A number times a single sum is distributed over it.
-/

namespace CircuitIR.Expr

/-- A coefficient times an expression, without simplifying anything else. -/
def keepCoefficient (r : Rules) (c : Number) (e : Expr) : Expr :=
  if e.isOne then .number c
  else if c.isOne then e
  else if c.isMinusOne then r.neg e
  else
    match e with
    | .sum _ => .product [.number c, e]
    | .product (.number n :: fs) =>
      let m := n.mul c
      if m.isOne then ofFactors fs else .product (.number m :: fs)
    | .product fs => .product (.number c :: fs)
    | e => r.product [.number c, e]

/-- A product while it is collected. -/
structure Factors where
  /-- The number so far, or an infinity of the complex plane. -/
  coefficient : Expr
  /-- Bases with their exponents. -/
  powers : List (Expr × Expr)
  /-- Positive numbers with symbolic exponents. -/
  numericPowers : List (Expr × Expr)
  /-- The exponent of minus one; the imaginary unit counts one half. -/
  minusOneExponent : Rat
  /-- Positive fractions with fractional exponents. -/
  roots : List (Rat × Rat)

/-- Multiplies the coefficient by a number; `none` if the product becomes undefined. -/
def Factors.scale (k : Factors) (n : Number) : Option Factors :=
  if n == .undefined || (k.coefficient.isComplexInfinity && n.isZero) then none
  else
    match k.coefficient with
    | .number m =>
      let p := m.mul n
      if p == .undefined then none else some { k with coefficient := .number p }
    | _ => some k

/-- Multiplies by one factor that is not a product; `none` if the product becomes undefined. -/
def Factors.multiply (r : Rules) (k : Factors) (e : Expr) : Option Factors :=
  match e with
  | .number n => k.scale n
  | .constant .complexInfinity =>
    if k.coefficient.isZero then none else some { k with coefficient := complexInfinity }
  | .constant .indefinite => some { k with coefficient := .constant .indefinite }
  | .constant .i => some { k with minusOneExponent := k.minusOneExponent + 1 / 2 }
  | e =>
    let (b, x) := e.baseExponent
    match e.isPower, b, x with
    | true, .number n, .number (.exact q) =>
      if q.den = 1 then
        match r.power b x with
        | .number m => k.scale m
        | _ => some { k with powers := k.powers ++ [(b, x)] }
      else
        match n with
        | .exact c =>
          if c < 0 then
            some { k with
              minusOneExponent := k.minusOneExponent + q
              roots := if c = -1 then k.roots else k.roots ++ [(-c, q)] }
          else some { k with roots := k.roots ++ [(c, q)] }
        | _ => some { k with powers := k.powers ++ [(b, x)] }
    | true, .number n, x =>
      if n.isPositive || x.facts.isInteger then
        some { k with numericPowers := k.numericPowers ++ [(b, x)] }
      else some { k with powers := k.powers ++ [(b, x)] }
    | _, b, x => some { k with powers := k.powers ++ [(b, x)] }

/-- Exponents of one base, as numbers times terms. -/
def insertExponent (t : Expr) (c : Number) : List (Expr × List Number) → List (Expr × List Number)
  | [] => [(t, [c])]
  | (u, cs) :: us =>
    if u == t then (u, cs ++ [c]) :: us else (u, cs) :: insertExponent t c us

/-- Adds a power to the exponents collected for each base. -/
def insertPower (b t : Expr) (c : Number) :
    List (Expr × List (Expr × List Number)) → List (Expr × List (Expr × List Number))
  | [] => [(b, [(t, [c])])]
  | (a, ts) :: ps =>
    if a == b then (a, insertExponent t c ts) :: ps else (a, ts) :: insertPower b t c ps

/-- Merges powers of equal bases whose exponents are multiples of the same term. -/
def gatherPowers (r : Rules) (ps : List (Expr × Expr)) : List (Expr × Expr) :=
  let grouped := ps.foldl
    (fun g (b, x) =>
      let (c, t) := x.splitCoefficient
      insertPower b t c g)
    []
  grouped.flatMap fun (b, ts) => ts.map fun (t, cs) =>
    let c := cs.foldl Number.add .zero
    (b, if t.isOne then .number c else r.product [.number c, t])

/-- The factors that powers give, the numbers among them, and the powers as they came out. -/
structure PowerResult where
  factors : List Expr
  numbers : List Number
  powers : List (Expr × Expr)
  changed : Bool

/-- Evaluates each power; a base that changes in the process is noted. -/
def evaluatePowers (r : Rules) (ps : List (Expr × Expr)) : PowerResult :=
  ps.foldl
    (fun (k : PowerResult) (b, x) =>
      if x.facts.isZero then k
      else if x.isOne then
        match b with
        | .number n => { k with numbers := k.numbers ++ [n] }
        | b => { k with factors := k.factors ++ [b], powers := k.powers ++ [(b, x)] }
      else
        let p := r.power b x
        let (b', x') := if p.isPower && !b.isPower then p.baseExponent else (b, x)
        { k with
          factors := k.factors ++ [p]
          powers := k.powers ++ [(b', x')]
          changed := k.changed || !(b' == b) })
    ⟨[], [], [], false⟩

def distinctBases (ps : List (Expr × Expr)) : Nat :=
  (ps.foldl (fun bs p => if bs.any (· == p.1) then bs else p.1 :: bs) ([] : List Expr)).length

/-- Adds a base to the list kept under an exponent. -/
def pushBase (x b : Expr) : List (Expr × List Expr) → List (Expr × List Expr)
  | [] => [(x, [b])]
  | (y, bs) :: ys => if y == x then (y, bs ++ [b]) :: ys else (y, bs) :: pushBase x b ys

/-- Powers of numbers with equal symbolic exponents become one power of the product. -/
def joinNumericPowers (r : Rules) (ps : List (Expr × Expr)) : List Expr :=
  (ps.foldl (fun g (b, x) => pushBase x b g) []).filterMap fun (x, bs) =>
    if x.facts.isZero then none else some (r.power (r.product bs) x)

/-! ## Roots -/

/-- Adds an element to the list kept under a key. -/
def pushUnder {α : Type} (key : Rat) (a : α) : List (Rat × List α) → List (Rat × List α)
  | [] => [(key, [a])]
  | (k, as) :: ks => if k = key then (k, as ++ [a]) :: ks else (k, as) :: pushUnder key a ks

/-- The greatest common divisor of two positive fractions. -/
def ratGcd (a b : Rat) : Rat :=
  mkRat (Int.gcd a.num b.num) (Nat.lcm a.den b.den)

/-- An exact power of a fraction with an integer exponent. -/
def ratPower (b : Rat) (n : Int) : Rat := if 0 ≤ n then b ^ n.toNat else (b⁻¹) ^ (-n).toNat

/-- Roots with exponents between zero and one, and the number taken out of them. -/
def reduceRoots (roots : List (Rat × Rat)) : Rat × List (Rat × Rat) :=
  let byBase := roots.foldl (fun g (b, e) => pushUnder b e g) []
  let byExponent := byBase.foldl
    (fun g (b, es) => pushUnder (es.foldl (· + ·) 0) b g) ([] : List (Rat × List Rat))
  byExponent.foldl
    (fun (c, rest) (e, bs) =>
      let b := bs.foldl (· * ·) 1
      if e.den = 1 then (c * ratPower b e.num, rest)
      else if (e.den : Int) < e.num then
        (c * ratPower b (e.num / e.den), rest ++ [(b, mkRat (e.num % e.den) e.den)])
      else (c, rest ++ [(b, e)]))
    (1, [])

/-- One root against the roots after it: common divisors of the bases are taken out with the sum of
the exponents. Gives the number taken out, the remaining base, the later roots and the new ones. -/
def extractCommon (b e : Rat) :
    List (Rat × Rat) → Rat × Rat × List (Rat × Rat) × List (Rat × Rat)
  | [] => (1, b, [], [])
  | (b', e') :: rest =>
    let g := ratGcd b b'
    if b = 1 || g = 1 then
      let (c, b₁, rest', grown) := extractCommon b e rest
      (c, b₁, (b', e') :: rest', grown)
    else
      let s := e + e'
      let (out, new) : Rat × List (Rat × Rat) :=
        if s.den = 1 then (ratPower g s.num, [])
        else if (s.den : Int) < s.num then
          (ratPower g (s.num / s.den), [(g, mkRat (s.num % s.den) s.den)])
        else (1, [(g, s)])
      let (c, b₁, rest', grown) := extractCommon (b / g) e rest
      (out * c, b₁, (b' / g, e') :: rest', new ++ grown)

/-- The number and the other factors of a simplified root. -/
def rootFactors (e : Expr) : Number × List (Expr × Expr) :=
  e.factors.foldl
    (fun (c, ps) f =>
      match f with
      | .number n => (c.mul n, ps)
      | f => (c, ps ++ [f.baseExponent]))
    (.one, [])

/-- Simplifies roots one after the other, each against those after it. -/
def combineRoots (r : Rules) : Nat → List (Rat × Rat) → Number × List (Rat × List Expr)
  | 0, _ => (.one, [])
  | _, [] => (.one, [])
  | fuel + 1, (b, e) :: rest =>
    if b = 1 then combineRoots r fuel rest
    else
      let (c, b₁, rest', grown) := extractCommon b e rest
      let (d, ps) := if b₁ = 1 then (Number.one, []) else rootFactors (r.power (rat b₁) (rat e))
      let (c', groups) := combineRoots r fuel (rest' ++ grown)
      -- earlier roots come first in each group
      let groups := ps.foldr
        (fun (b, x) gs =>
          match x with
          | .number (.exact q) =>
            if gs.any (fun g => g.1 = q) then
              gs.map fun g => if g.1 = q then (g.1, b :: g.2) else g
            else (q, [b]) :: gs
          | _ => gs)
        groups
      (((Number.exact c).mul d).mul c', groups)

/-- The collected power of minus one: the sign, and what is left as a factor. A power of minus one
joins a root with the same exponent. -/
def resolveMinusOne (exponent : Rat) (roots : List (Rat × Expr)) :
    Bool × List Expr × List (Rat × Expr) :=
  let n := exponent.floor
  let p := exponent - n
  let negative := n % 2 = 1
  if p = 0 then (negative, [], roots)
  else if p = 1 / 2 then (negative, [imaginaryUnit], roots)
  else
    match roots.findIdx? fun (e, b) => e = p && b.facts.isPositive with
    | some i =>
      (negative, [],
        roots.mapIdx fun j (e, b) =>
          if j = i then (e, match b with
            | .number n => .number n.neg
            | b => .product (.number .minusOne :: b.factors)) else (e, b))
    | none => (negative, [.power minusOne (rat p)], roots)

/-- Drops factors of known sign beside an infinite coefficient and gives the sign of the rest. -/
def absorbSigns (fs : List Expr) : Bool × List Expr :=
  fs.foldl
    (fun (negative, kept) f =>
      let k := f.facts
      if k.isPositive then (negative, kept)
      else if k.isNegative then (!negative, kept)
      else (negative, kept ++ [f]))
    (false, [])

/-- The product of a coefficient and simplified factors. -/
def finishProduct (r : Rules) (coefficient : Expr) (fs : List Expr) : Expr :=
  let (coefficient, fs) : Expr × List Expr :=
    match coefficient with
    | .number (.infinity n) =>
      let (flip, kept) := absorbSigns fs
      (.number (.infinity (n != flip)), kept)
    | .constant .complexInfinity =>
      (coefficient, fs.filter fun f => !(f.facts.isNonzero && f.facts.real.isSome))
    | c => (c, fs)
  match coefficient with
  | .number n =>
    if n.isZero then (if fs.any fun f => f.facts.isInfinite then undefined else coefficient)
    else
      let n := (fs.filterMap number?).foldl Number.mul n
      let fs := canonicalSort (fs.filter fun f => !f.isNumber)
      match fs with
      | [.sum ts] =>
        if n.isOne then .sum ts
        else if n.isFinite then r.sum (ts.map fun t => r.product [.number n, t])
        else .product [.number n, .sum ts]
      | fs => ofFactors (if n.isOne then fs else .number n :: fs)
  | c => ofFactors (c :: canonicalSort (fs.filter fun f => !f.isNumber))

/-- The product of canonical factors in the general case. -/
def generalProduct (r : Rules) (es : List Expr) : Expr :=
  let flat := es.filter (fun e => !e.isProduct) ++ (es.filter isProduct).flatMap factors
  match flat.foldlM (Factors.multiply r) ⟨one, [], [], 0, []⟩ with
  | none => undefined
  | some k =>
    let first := evaluatePowers r (gatherPowers r k.powers)
    let powers :=
      if first.changed && distinctBases first.powers != first.powers.length then
        let again := evaluatePowers r (gatherPowers r first.powers)
        { again with numbers := first.numbers ++ again.numbers }
      else first
    let numeric := joinNumericPowers r (gatherPowers r k.numericPowers)
    let (c, reduced) := reduceRoots k.roots
    let (d, groups) := combineRoots r (2 * reduced.length * reduced.length + 8) reduced
    let roots := groups.map fun (e, bs) => (e, r.product bs)
    let (negative, minusOnes, roots) := resolveMinusOne k.minusOneExponent roots
    let rootFactors := roots.map fun (e, b) => r.power b (rat e)
    let number := (powers.numbers.foldl Number.mul (.exact c)).mul d
    let number := if negative then number.neg else number
    let coefficient : Expr :=
      match k.coefficient with
      | .number n => .number (n.mul number)
      | c => c
    finishProduct r coefficient (powers.factors ++ numeric ++ minusOnes ++ rootFactors)

/-- The canonical product of canonical factors. -/
def canonicalProduct (r : Rules) (es : List Expr) : Expr :=
  let es := es.filter fun e => !e.isOne
  match es with
  | [] => one
  | [e] => e
  | [a, b] =>
    let (a, b) := if b.rat?.isSome then (b, a) else (a, b)
    match a with
    | .number (.exact q) =>
      if q = 0 then generalProduct r [a, b]
      else
        let (c, rest) := b.splitCoefficient
        let n := (Number.exact q).mul c
        match rest with
        | .product fs => ofFactors (if n.isOne then fs else .number n :: fs)
        | .sum ts =>
          if n.isOne then rest
          else if n.isExact then .sum (canonicalSort (ts.map (keepCoefficient r n)))
          else generalProduct r [a, b]
        | _ => generalProduct r [a, b]
    | _ => generalProduct r [a, b]
  | es => generalProduct r es

end CircuitIR.Expr
