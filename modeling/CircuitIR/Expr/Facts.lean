import CircuitIR.Expr.Approximation

/-!
# Facts about expressions

What is known about the value of an expression when each symbol stands for an arbitrary complex
number: whether it is real, zero, of a sign, an integer, finite. An answer is yes, no or unknown.
Closed expressions are decided by their numeric value.
-/

namespace CircuitIR

/-- Three-valued facts; `none` is unknown. Real includes the infinities. -/
structure Facts where
  real : Option Bool
  zero : Option Bool
  positive : Option Bool
  negative : Option Bool
  integer : Option Bool
  even : Option Bool
  finite : Option Bool
deriving Repr, Inhabited

namespace Facts

def unknown : Facts := ⟨none, none, none, none, none, none, none⟩

def isReal (f : Facts) : Bool := f.real == some true

def isZero (f : Facts) : Bool := f.zero == some true

def isPositive (f : Facts) : Bool := f.positive == some true

def isNegative (f : Facts) : Bool := f.negative == some true

def isInteger (f : Facts) : Bool := f.integer == some true

def isEven (f : Facts) : Bool := f.even == some true

def isOdd (f : Facts) : Bool := f.isInteger && f.even == some false

def isInfinite (f : Facts) : Bool := f.finite == some false

/-- Real and not negative. -/
def isNonnegative (f : Facts) : Bool :=
  f.isPositive || f.isZero || (f.isReal && f.negative == some false)

/-- Real and not positive. -/
def isNonpositive (f : Facts) : Bool :=
  f.isNegative || f.isZero || (f.isReal && f.positive == some false)

/-- Known to be a nonzero number. -/
def isNonzero (f : Facts) : Bool := f.zero == some false

def ofNumber : Number → Facts
  | .exact q =>
    { real := some true, zero := some (q == 0), positive := some (0 < q), negative := some (q < 0)
      integer := some (q.den == 1), even := some (q.den == 1 && q.num % 2 == 0)
      finite := some true }
  | .float x _ =>
    { real := some true, zero := some x.isZero, positive := some x.isPositive
      negative := some x.isNegative
      integer := if x.isZero then some true else if x.isInteger then none else some false
      even := none, finite := some true }
  | .infinity n =>
    { real := some true, zero := some false, positive := some (!n), negative := some n
      integer := some false, even := none, finite := some false }
  | .undefined => unknown

/-- A quantity known to be real and of no other kind. -/
def someReal : Facts := { unknown with real := some true, finite := some true }

/-- A real quantity that is not negative. -/
def someNonnegative : Facts := { someReal with negative := some false }

/-- A positive real quantity. -/
def somePositive : Facts :=
  { someNonnegative with positive := some true, zero := some false }

/-- The facts that the value of a closed expression decides. -/
def ofValue (z : ComplexBinary) : Facts :=
  if z.isReal then
    { real := some true, zero := some z.re.isZero, positive := some z.re.isPositive
      negative := some z.re.isNegative
      integer := if z.re.isZero then some true else if z.re.isInteger then none else some false
      even := none, finite := some true }
  else
    { unknown with
        real := some false, zero := some false, positive := some false, negative := some false
        integer := some false, finite := some true }

def all (p : Facts → Bool) (fs : List Facts) : Bool := fs.all p

def sum (fs : List Facts) : Facts :=
  let real := fs.all isReal
  let nonnegative := fs.all isNonnegative
  let nonpositive := fs.all isNonpositive
  let integer := fs.all isInteger
  { real := if real then some true else none
    positive := if nonnegative && fs.any isPositive then some true
      else if nonpositive then some false else none
    negative := if nonpositive && fs.any isNegative then some true
      else if nonnegative then some false else none
    zero := if (nonnegative && fs.any isPositive) || (nonpositive && fs.any isNegative)
      then some false else none
    integer := if integer then some true else none
    even := if integer && fs.all (·.even.isSome) then
        some ((fs.filter isOdd).length % 2 == 0) else none
    finite := if fs.all (·.finite == some true) then some true else none }

def product (fs : List Facts) : Facts :=
  let real := fs.all isReal
  let signed := fs.all fun f => f.isPositive || f.isNegative
  let weak := fs.all fun f => f.isNonnegative || f.isNonpositive
  -- the sign of the product, if no factor is zero
  let minus := (fs.filter fun f => f.isNegative || (f.isNonpositive && !f.isNonnegative)).length % 2 == 1
  let integer := fs.all isInteger
  { real := if real then some true else none
    positive := if signed then some (!minus) else if weak && minus then some false else none
    negative := if signed then some minus else if weak && !minus then some false else none
    zero := if fs.any isZero then some true else if fs.all isNonzero then some false else none
    integer := if integer then some true else none
    even := if integer && fs.any isEven then some true
      else if integer && fs.all isOdd then some false else none
    finite := if fs.all (·.finite == some true) then some true else none }

def power (b e : Facts) (evenExponent : Bool) : Facts :=
  if b.isPositive && e.isReal then somePositive
  else if b.isNonnegative && e.isReal && e.isNonnegative then someNonnegative
  else if b.isReal && evenExponent then
    { someNonnegative with integer := if b.isInteger && e.isNonnegative then some true else none }
  else if b.isReal && e.isInteger && e.isNonnegative then
    { someReal with
        negative := if b.isNegative then some true else none
        positive := if b.isNegative then some false else none
        integer := if b.isInteger then some true else none }
  else unknown

def apply (f : FunctionName) (args : List Facts) : Facts :=
  let x := args.headD unknown
  match f with
  | .exp => if x.isReal then somePositive else unknown
  | .cosh => if x.isReal then somePositive else unknown
  | .log => if x.isPositive then someReal else unknown
  | .abs =>
    { (if x.isNonzero then somePositive else someNonnegative) with
        finite := x.finite, zero := x.zero
        integer := if x.isReal then x.integer else none }
  | .sign | .sin | .cos | .sinh | .tanh | .atan =>
    if x.isReal then
      { someReal with positive := if f == .sin || f == .cos then none else x.positive
                      negative := if f == .sin || f == .cos then none else x.negative
                      integer := if f == .sign then some true else none }
    else unknown
  | .re | .im | .arg => someReal
  | .floor | .ceiling => if x.isReal then { someReal with integer := some true } else unknown
  | .factorial =>
    if x.isInteger && x.isNonnegative then { somePositive with integer := some true } else unknown
  | .modulus => if args.all isInteger then { someReal with integer := some true } else unknown
  | _ => unknown

end Facts

namespace Expr

/-- The facts of a closed expression, from its value if it has one. -/
def closedFacts (e : Expr) : Facts :=
  match e.approximate with
  | some z => Facts.ofValue z
  | none => Facts.unknown

mutual

/-- The facts known about an expression. -/
def facts : Expr → Facts
  | .number n => Facts.ofNumber n
  | .symbol _ => Facts.unknown
  | .constant .complexInfinity =>
    { Facts.unknown with real := some false, zero := some false, finite := some false }
  | .constant .indefinite => { Facts.unknown with real := some true }
  | e@(.constant _) => closedFacts e
  | e@(.power b x) =>
    if e.isClosed then closedFacts e
    else
      let k := facts x
      Facts.power (facts b) k k.isEven
  | e@(.product es) => if e.isClosed then closedFacts e else Facts.product (factsAll es)
  | e@(.sum es) => if e.isClosed then closedFacts e else Facts.sum (factsAll es)
  | e@(.apply f es) => if e.isClosed then closedFacts e else Facts.apply f (factsAll es)

def factsAll : List Expr → List Facts
  | [] => []
  | e :: es => facts e :: factsAll es

end

/-- A closed expression whose value is purely imaginary and not zero. -/
def isImaginary (e : Expr) : Bool :=
  e.isClosed && match e.approximate with
    | some z => z.re.isZero && !z.im.isZero
    | none => false

/-- A closed expression with a value that is real. -/
def isComparable (e : Expr) : Bool :=
  e.isClosed && match e.approximate with
    | some z => z.isReal
    | none => false

end Expr

end CircuitIR
