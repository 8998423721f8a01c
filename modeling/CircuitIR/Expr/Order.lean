import CircuitIR.Expr.Facts

/-!
# Order of display

The order in which the terms of a sum and the factors of a product are written. Factors are ordered
by a sort key: numbers, constants and symbols by name, then products, sums and functions. Terms are
ordered as monomials, lexicographically and in descending powers, over all the bases that occur in
the sum; terms of the same powers are ordered by their numeric coefficients.
-/

namespace CircuitIR

/-- A sort key: a tree of texts and numbers that is compared from left to right. -/
inductive SortKey where
  | number (n : Number)
  | text (s : String)
  | node (ks : List SortKey)
deriving Inhabited

namespace SortKey

def nat (n : Nat) : SortKey := .number (.ofInt n)

mutual

/-- Lexicographic comparison; a proper beginning of a list comes first. -/
def compare : SortKey → SortKey → Ordering
  | .number a, .number b => if Number.lt a b then .lt else if Number.lt b a then .gt else .eq
  | .text a, .text b => Ord.compare a b
  | .node as, .node bs => compareList as bs
  | .number _, _ => .lt
  | .text _, .number _ => .gt
  | .text _, .node _ => .lt
  | .node _, _ => .gt

def compareList : List SortKey → List SortKey → Ordering
  | [], [] => .eq
  | [], _ :: _ => .lt
  | _ :: _, [] => .gt
  | a :: as, b :: bs => (compare a b).then (compareList as bs)

end

end SortKey

namespace Expr

/-- Position of a function among the functions: the usual ones first, all others by name. -/
def functionRank : FunctionName → Nat
  | .exp => 10 | .log => 11 | .sin => 20 | .cos => 21 | .tan => 22 | .cot => 23
  | .sinh => 30 | .cosh => 31 | .tanh => 32 | .coth => 33
  | .conjugate => 40 | .re => 41 | .im => 42 | .arg => 43
  | _ => 10000

/-- The first part of a sort key: the kind of the expression. Constants come before symbols, then
products, sums and unevaluated powers, then functions. -/
def kindKey : Expr → SortKey
  | .number _ => .node [.nat 1]
  | .constant .complexInfinity => .node [.nat 2, .nat 0]
  | .constant .e => .node [.nat 2, .nat 1]
  | .constant .i => .node [.nat 2, .nat 2]
  | .constant .pi => .node [.nat 2, .nat 3]
  | .symbol _ => .node [.nat 2, .nat 4]
  | .product _ => .node [.nat 3, .nat 0]
  | .sum _ => .node [.nat 3, .nat 1]
  | .power .. => .node [.nat 3, .nat 2]
  | .apply f _ => .node [.nat 4, .nat (functionRank f), .text f.text]
  | .constant .indefinite => .node [.nat 5]

def numberKey (n : Number) : SortKey :=
  .node [kindKey (.number n), .node [.nat 0, .node []], .node [], .number n]

/-- The text of an expression without parts, as it enters a sort key. -/
def atomText : Expr → String
  | .number n => n.text
  | .constant c => c.text
  | .symbol s => s
  | _ => ""

/-- A factor as an integer power of a base, for the comparison of monomials. -/
def decomposePower (e : Expr) : Expr × Int :=
  match e.baseExponent with
  | (b, .number (.exact q)) =>
    (if q.den = 1 then b else .power b (rat (1 / (q.den : Rat))), q.num)
  | (_, .number _) => (e, 1)
  | (b, x) =>
    let (q, tail) := x.splitExactCoefficient
    let power (x : Expr) : Expr :=
      match b with
      | .constant .e => .apply .exp [x]
      | _ => .power b x
    if q = 1 then (e, 1)
    else if q.den = 1 then (power tail, q.num)
    else (power (ofFactors (rat (1 / (q.den : Rat)) :: tail.factors)), q.num)

/-- A term as a complex coefficient and the powers of its bases. -/
structure Monomial where
  term : Expr
  coefficient : ComplexBinary
  powers : List (Expr × Int)

/-- Collects the numeric factors of a term into its coefficient. -/
def monomialOf (term : Expr) : Monomial :=
  let (c, rest) := term.splitCoefficient
  let start : ComplexBinary := .ofReal (c.toBinary 64)
  let fs := if rest.isOne then [] else rest.factors
  fs.foldl
    (fun (m : Monomial) f =>
      match (if f.isClosed then f.approximate else none) with
      | some z => { m with coefficient := .mul 64 m.coefficient z }
      | none =>
        let (b, n) := f.decomposePower
        { m with powers := (m.powers.filter fun p => !(p.1 == b)) ++ [(b, n)] })
    ⟨term, start, []⟩

/-- Descending powers of the bases in order, then the imaginary and the real parts of the
coefficients. -/
def compareMonomials (bases : List Expr) (a b : Monomial) : Ordering :=
  let powerOf (m : Monomial) (g : Expr) : Int :=
    ((m.powers.find? fun p => p.1 == g).map (·.2)).getD 0
  let compareBinary (x y : Binary) : Ordering :=
    if Binary.lt x y then .lt else if Binary.lt y x then .gt else .eq
  let byPowers := bases.foldl
    (fun (o : Ordering) g => o.then (compare (powerOf b g) (powerOf a g))) Ordering.eq
  byPowers.then
    ((compare (!a.coefficient.isReal) (!b.coefficient.isReal)).then
      ((compareBinary a.coefficient.im b.coefficient.im).then
        (compareBinary a.coefficient.re b.coefficient.re)))

/-- A positive number plus one negative multiple keeps the number first. -/
def numberFirst? (ts : List Expr) : Option (List Expr) :=
  let isConstant : Expr → Bool
    | .number _ => true
    | .constant .pi => true
    | .constant .e => true
    | _ => false
  let positive : Expr → Bool
    | .number n => n.isPositive
    | .constant .pi => true
    | .constant .e => true
    | _ => false
  match ts.filter isConstant ++ ts.filter (fun t => !isConstant t) with
  | [a, m@(.product [.number n, _])] =>
    if isConstant a && positive a && n.isNegative then some [a, m] else none
  | _ => none

mutual

/-- The sort key of an expression, to a bounded depth. -/
def sortKeyAt : Nat → Expr → SortKey
  | 0, _ => .node []
  | fuel + 1, e =>
    match e with
    | .number n => numberKey n
    | _ =>
      let (c, body) := e.splitCoefficient
      let (base, exponent) : Expr × Expr :=
        match body with
        | .power b x => (b, x)
        | b => (b, one)
      let args : List SortKey :=
        match base with
        | .sum ts => (orderedTermsAt fuel ts).map (sortKeyAt fuel)
        | .product fs => (orderedFactorsAt fuel fs).map (sortKeyAt fuel)
        | .power b x => [sortKeyAt fuel b, sortKeyAt fuel x]
        | .apply _ es => es.map (sortKeyAt fuel)
        | atom => [.text atom.atomText]
      .node [kindKey base, .node [.nat args.length, .node args], sortKeyAt fuel exponent, .number c]

/-- The factors of a product in the order of display. -/
def orderedFactorsAt : Nat → List Expr → List Expr
  | 0, fs => fs
  | fuel + 1, fs =>
    (sortBy (fun a b => SortKey.compare a.1 b.1) (fs.map fun f => (sortKeyAt fuel f, f))).map (·.2)

/-- The terms of a sum in the order of display. -/
def orderedTermsAt : Nat → List Expr → List Expr
  | 0, ts => ts
  | fuel + 1, ts =>
    match numberFirst? ts with
    | some us => us
    | none =>
      let ms := ts.map monomialOf
      let bases := ms.foldl
        (fun gs m => m.powers.foldl (fun gs p => if gs.any (· == p.1) then gs else gs ++ [p.1]) gs) []
      let bases :=
        (sortBy (fun a b => SortKey.compare a.1 b.1)
          (bases.map fun g => (sortKeyAt fuel g, g))).map (·.2)
      (sortBy (compareMonomials bases) ms).map (·.term)

end

/-- Depth to which sort keys of an expression have to go. -/
def keyFuel (e : Expr) : Nat := 4 * e.depth + 8

def sortKey (e : Expr) : SortKey := sortKeyAt e.keyFuel e

def orderedFactors (e : Expr) : List Expr := orderedFactorsAt e.keyFuel e.factors

def orderedTerms (e : Expr) : List Expr := orderedTermsAt e.keyFuel e.terms

/-! ## Extraction of a sign -/

/-- The negative of a term of a sum. -/
def negateTerm : Expr → Expr
  | .number n => .number n.neg
  | .product (.number n :: fs) =>
    if n.isMinusOne then ofFactors fs else .product (.number n.neg :: fs)
  | t => .product (.number .minusOne :: t.factors)

mutual

/-- Whether a minus sign can be taken out of an expression: a negative number, a product with a
negative number, or a sum in which most terms have this property. Of a sum and its negative with
equally many, the one with the smaller sort key has it. -/
def hasMinus : Expr → Bool
  | .number n => n.isNegative
  | .product (.number n :: _) => n.isNegative
  | .sum ts =>
    let (negative, positive) := countMinus ts
    if negative < positive then false
    else if positive < negative then true
    else
      let e := Expr.sum ts
      let opposite := Expr.sum (ts.map negateTerm)
      SortKey.compare e.sortKey opposite.sortKey == .lt
  | _ => false

/-- How many terms have a minus sign and how many do not. -/
def countMinus : List Expr → Nat × Nat
  | [] => (0, 0)
  | t :: ts =>
    let (m, n) := countMinus ts
    if hasMinus t then (m + 1, n) else (m, n + 1)

end

end Expr

end CircuitIR
