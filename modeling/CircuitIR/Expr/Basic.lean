import CircuitIR.Expr.Number

/-!
# Expressions

Symbolic expressions over named symbols: numbers, constants, sums, products, powers and the
elementary functions. The constructors build trees as they are; the modules on simplification build
them in canonical form. This module holds the type, its equality, the canonical order of operands
and the symbols that occur in an expression.
-/

namespace CircuitIR

/-- Constants that are not numbers of the number type. -/
inductive Constant where
  | e
  | pi
  | i
  /-- The single point at infinity of the complex plane. -/
  | complexInfinity
  /-- A bounded or unbounded quantity without a definite value, such as the sine of infinity. -/
  | indefinite
deriving DecidableEq, Repr, Inhabited

/-- Functions with a fixed meaning in expressions. -/
inductive FunctionName where
  | exp | log | sin | cos | tan | cot
  | asin | acos | atan | atan2
  | sinh | cosh | tanh | coth
  | abs | sign | floor | ceiling
  | factorial | doubleFactorial | modulus
  | re | im | arg | conjugate
deriving DecidableEq, Repr, Inhabited

def FunctionName.text : FunctionName → String
  | exp => "exp" | log => "log" | sin => "sin" | cos => "cos" | tan => "tan" | cot => "cot"
  | asin => "asin" | acos => "acos" | atan => "atan" | atan2 => "atan2"
  | sinh => "sinh" | cosh => "cosh" | tanh => "tanh" | coth => "coth"
  | abs => "Abs" | sign => "sign" | floor => "floor" | ceiling => "ceiling"
  | factorial => "factorial" | doubleFactorial => "factorial2" | modulus => "Mod"
  | re => "re" | im => "im" | arg => "arg" | conjugate => "conjugate"

def Constant.text : Constant → String
  | e => "E" | pi => "pi" | i => "I" | complexInfinity => "zoo" | indefinite => "AccumBounds(-1, 1)"

inductive Expr where
  | number (n : Number)
  | constant (c : Constant)
  | symbol (name : String)
  | power (base exponent : Expr)
  | product (factors : List Expr)
  | sum (terms : List Expr)
  | apply (f : FunctionName) (args : List Expr)
deriving Inhabited, Repr

namespace Expr

def int (n : Int) : Expr := .number (.ofInt n)

def rat (q : Rat) : Expr := .number (.exact q)

def zero : Expr := int 0

def one : Expr := int 1

def minusOne : Expr := int (-1)

def half : Expr := rat (1 / 2)

def pi : Expr := .constant .pi

def imaginaryUnit : Expr := .constant .i

def complexInfinity : Expr := .constant .complexInfinity

def undefined : Expr := .number .undefined

mutual

/-- Structural equality. -/
def beq : Expr → Expr → Bool
  | .number a, .number b => a == b
  | .constant a, .constant b => a == b
  | .symbol a, .symbol b => a == b
  | .power a b, .power c d => beq a c && beq b d
  | .product as, .product bs => beqList as bs
  | .sum as, .sum bs => beqList as bs
  | .apply f as, .apply g bs => f == g && beqList as bs
  | _, _ => false

def beqList : List Expr → List Expr → Bool
  | [], [] => true
  | a :: as, b :: bs => beq a b && beqList as bs
  | _, _ => false

end

instance : BEq Expr := ⟨beq⟩

/-! ## Shape -/

def number? : Expr → Option Number
  | .number n => some n
  | _ => none

def isNumber : Expr → Bool
  | .number _ => true
  | _ => false

def isSum : Expr → Bool
  | .sum _ => true
  | _ => false

def isProduct : Expr → Bool
  | .product _ => true
  | _ => false

def isPower : Expr → Bool
  | .power .. => true
  | _ => false

/-- The exact fraction that an expression is, if it is one. -/
def rat? : Expr → Option Rat
  | .number (.exact q) => some q
  | _ => none

def int? : Expr → Option Int
  | .number n => n.integer?
  | _ => none

def isZero : Expr → Bool
  | .number n => n.isZero
  | _ => false

def isExactZero (e : Expr) : Bool := e.rat? == some 0

def isOne (e : Expr) : Bool := e.rat? == some 1

def isMinusOne (e : Expr) : Bool := e.rat? == some (-1)

def isUndefined : Expr → Bool
  | .number .undefined => true
  | _ => false

def isComplexInfinity : Expr → Bool
  | .constant .complexInfinity => true
  | _ => false

/-- The terms of a sum; any other expression is its own only term. -/
def terms : Expr → List Expr
  | .sum ts => ts
  | e => [e]

/-- The factors of a product; any other expression is its own only factor. -/
def factors : Expr → List Expr
  | .product fs => fs
  | e => [e]

/-- A product of factors that need no simplification. -/
def ofFactors : List Expr → Expr
  | [] => one
  | [e] => e
  | es => .product es

/-- A sum of terms that need no simplification. -/
def ofTerms : List Expr → Expr
  | [] => zero
  | [e] => e
  | es => .sum es

/-- The leading number of a product and what remains; a number has remainder one. -/
def splitCoefficient : Expr → Number × Expr
  | .number n => (n, one)
  | .product (.number n :: fs) => (n, ofFactors fs)
  | e => (.one, e)

/-- Like `splitCoefficient`, but only an exact number is split off. -/
def splitExactCoefficient (e : Expr) : Rat × Expr :=
  match e.splitCoefficient with
  | (.exact q, r) => (q, r)
  | _ => (1, e)

/-- The negative of an exponent. -/
def negatedExponent : Expr → Expr
  | .number n => .number n.neg
  | .product (.number n :: fs) =>
    if n.isMinusOne then ofFactors fs else .product (.number n.neg :: fs)
  | e => .product (.number .minusOne :: e.factors)

/-- Base and exponent of a power; the exponential is a power of its base, and a power of one over an
integer is one of that integer. -/
def baseExponent : Expr → Expr × Expr
  | .power (.number (.exact q)) e =>
    if q.num = 1 && q.den != 1 then (int q.den, e.negatedExponent) else (rat q, e)
  | .power b e => (b, e)
  | .apply .exp [x] => (.constant .e, x)
  | e => (e, one)

/-! ## Symbols -/

mutual

/-- The names of the symbols of an expression, from left to right, with repetitions. -/
def symbolList : Expr → List String
  | .number _ => []
  | .constant _ => []
  | .symbol s => [s]
  | .power b e => symbolList b ++ symbolList e
  | .product es => symbolListAll es
  | .sum es => symbolListAll es
  | .apply _ es => symbolListAll es

def symbolListAll : List Expr → List String
  | [] => []
  | e :: es => symbolList e ++ symbolListAll es

end

/-- Inserts a name into a strictly sorted list of names. -/
def insertName (s : String) : List String → List String
  | [] => [s]
  | t :: ts => if s < t then s :: t :: ts else if s = t then t :: ts else t :: insertName s ts

/-- The free symbols in the order of their names, by code points, without repetitions. -/
def symbols (e : Expr) : List String := e.symbolList.foldl (fun ts s => insertName s ts) []

mutual

/-- No symbol occurs in the expression. -/
def isClosed : Expr → Bool
  | .number _ => true
  | .constant _ => true
  | .symbol _ => false
  | .power b e => isClosed b && isClosed e
  | .product es => isClosedAll es
  | .sum es => isClosedAll es
  | .apply _ es => isClosedAll es

def isClosedAll : List Expr → Bool
  | [] => true
  | e :: es => isClosed e && isClosedAll es

end

mutual

/-- A bound on the nesting of an expression. -/
def depth : Expr → Nat
  | .number _ => 0
  | .constant _ => 0
  | .symbol _ => 0
  | .power b e => max (depth b) (depth e) + 1
  | .product es => depthAll es + 1
  | .sum es => depthAll es + 1
  | .apply _ es => depthAll es + 1

def depthAll : List Expr → Nat
  | [] => 0
  | e :: es => max (depth e) (depthAll es)

end

mutual

def anySub (p : Expr → Bool) : Expr → Bool
  | .number n => p (.number n)
  | .constant c => p (.constant c)
  | .symbol s => p (.symbol s)
  | .power b e => p (.power b e) || anySub p b || anySub p e
  | .product es => p (.product es) || anySubAll p es
  | .sum es => p (.sum es) || anySubAll p es
  | .apply f es => p (.apply f es) || anySubAll p es

def anySubAll (p : Expr → Bool) : List Expr → Bool
  | [] => false
  | e :: es => anySub p e || anySubAll p es

end

def contains (e part : Expr) : Bool := e.anySub (· == part)

/-! ## Canonical order of operands -/

/-- Position of the kind of an expression in the canonical order: numbers, constants, symbols,
powers, products, sums, then functions; kinds of the last position are ordered by name. -/
def rank : Expr → Nat × String
  | .number (.exact q) =>
    if q = 0 then (0, "") else if q = 1 then (1, "") else if q = 1 / 2 then (2, "")
    else if q = -1 then (5, "") else if q.den = 1 then (7, "") else (8, "")
  | .number (.infinity false) => (3, "")
  | .number .undefined => (4, "")
  | .number (.infinity true) => (6, "")
  | .number (.float ..) => (9, "")
  | .constant .e => (10, "")
  | .constant .pi => (11, "")
  | .constant .i => (12, "")
  | .symbol _ => (13, "")
  | .power .. => (14, "")
  | .product _ => (15, "")
  | .sum _ => (16, "")
  | .apply .abs _ => (17, "")
  | .apply .factorial _ => (18, "")
  | .constant .complexInfinity => (19, "ComplexInfinity")
  | .constant .indefinite => (19, "AccumulationBounds")
  | .apply f _ => (19, f.text)

/-- Order of numbers of the same kind: fractions by numerator and denominator, inexact numbers by
sign, mantissa, exponent and precision. -/
def compareNumbers : Number → Number → Ordering
  | .exact a, .exact b => (compare a.num b.num).then (compare a.den b.den)
  | .float x p, .float y q =>
    (compare x.isNegative y.isNegative).then
      ((compare x.mantissa.natAbs y.mantissa.natAbs).then
        ((compare x.exponent y.exponent).then (compare p q)))
  | _, _ => .eq

def compareRanks (a b : Nat × String) : Ordering := (compare a.1 b.1).then (compare a.2 b.2)

mutual

/-- The canonical order in which operands of sums and products are kept. -/
def canonicalCompare : Expr → Expr → Ordering
  | .number a, .number b =>
    (compareRanks (rank (.number a)) (rank (.number b))).then (compareNumbers a b)
  | .symbol a, .symbol b => compare a b
  | .power a b, .power c d => (canonicalCompare a c).then (canonicalCompare b d)
  | .product as, .product bs =>
    (compare as.length bs.length).then (canonicalCompareList as bs)
  | .sum as, .sum bs => (compare as.length bs.length).then (canonicalCompareList as bs)
  | .apply f as, .apply g bs =>
    (compareRanks (rank (.apply f as)) (rank (.apply g bs))).then
      ((compare as.length bs.length).then (canonicalCompareList as bs))
  | a, b => compareRanks (rank a) (rank b)

def canonicalCompareList : List Expr → List Expr → Ordering
  | a :: as, b :: bs => (canonicalCompare a b).then (canonicalCompareList as bs)
  | _, _ => .eq

end

/-- Stable insertion into a list that is sorted by a comparison. -/
def insertSorted {α : Type} (cmp : α → α → Ordering) (x : α) : List α → List α
  | [] => [x]
  | y :: ys => if cmp x y = .gt then y :: insertSorted cmp x ys else x :: y :: ys

/-- Stable sorting by insertion; the lists sorted here are short. -/
def sortBy {α : Type} (cmp : α → α → Ordering) (xs : List α) : List α :=
  xs.foldr (insertSorted cmp) []

def canonicalSort (es : List Expr) : List Expr := sortBy canonicalCompare es

end Expr

end CircuitIR
