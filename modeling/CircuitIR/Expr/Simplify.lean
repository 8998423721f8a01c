import CircuitIR.Expr.Power
import CircuitIR.Expr.Rounding

/-!
# The simplifier

Canonical function applications, and the collection of operations that every expression is built
with. The operations call each other on smaller problems, so the collection is the limit of
`refine`; the depth used here is far above what nested expressions need.
-/

namespace CircuitIR.Expr

/-! ## Functions of inexact numbers -/

/-- The precision of an inexact number or of a complex number with an inexact part. -/
def inexactPrecision? : Expr → Option Nat
  | .number (.float _ p) => some p
  | .sum ts =>
    match complexParts? (.sum ts) with
    | some (.float _ p, .float _ q) => some (max p q)
    | some (.float _ p, _) => some p
    | some (_, .float _ q) => some q
    | _ => none
  | _ => none

/-- The value of a function of inexact numbers, to their precision. -/
def inexactValue (r : Rules) (f : FunctionName) (args : List Expr) : Option Expr :=
  let precisions := args.map inexactPrecision?
  if args.isEmpty || precisions.any Option.isNone then none
  else
    let p := Binary.precisionOfDigits (Binary.decimalDigits ((precisions.filterMap id).foldl max 1))
    match (args.mapM (approximateAt (p + 32))).bind (functionValue? (p + 32) f) with
    | none => none
    | some z =>
      let re : Expr := .number (.rounded z.re p)
      if z.isReal then some re
      else some (r.sum [re, r.product [.number (.rounded z.im p), imaginaryUnit]])

/-! ## Applications -/

def vanishesAtZero : FunctionName → Bool
  | .sin | .tan | .asin | .atan | .sinh | .tanh => true
  | _ => false

/-- Functions whose value at infinity is bounded but not definite. -/
def oscillates : FunctionName → Bool
  | .sin | .cos | .tan | .cot => true
  | _ => false

/-- Functions without a value at the point at infinity of the complex plane. -/
def undefinedAtComplexInfinity : FunctionName → Bool
  | .exp | .sin | .cos | .tan | .cot | .sinh | .cosh | .tanh | .coth => true
  | _ => false

/-- Rules for special arguments of functions of one argument. -/
def specialValue? (f : FunctionName) (e : Expr) : Option Expr :=
  if e.isUndefined && f != .doubleFactorial then some undefined
  else if e.isComplexInfinity && undefinedAtComplexInfinity f then some undefined
  else if oscillates f && e.facts.isReal && e.facts.isInfinite then some (.constant .indefinite)
  else if e.facts.isZero then
    if vanishesAtZero f then some zero
    else
      match f with
      | .cos => some one
      | .cosh => some one
      | .exp => some one
      | _ => none
  else none

def functionRule (r : Rules) (f : FunctionName) (args : List Expr) : Option Expr :=
  match f, args with
  | .exp, [x] => simplifyExp r x
  | .log, [x] => simplifyLog r x
  | .log, [x, b] => some (logToBase r x b)
  | .sin, [x] => simplifySin r x
  | .cos, [x] => simplifyCos r x
  | .tan, [x] => simplifyTan r x
  | .cot, [x] => simplifyCot r x
  | .asin, [x] => simplifyAsin r x
  | .acos, [x] => simplifyAcos r x
  | .atan, [x] => simplifyAtan r x
  | .atan2, [y, x] => simplifyAtan2 r y x
  | .sinh, [x] => simplifySinh r x
  | .cosh, [x] => simplifyCosh r x
  | .tanh, [x] => simplifyTanh r x
  | .coth, [x] => simplifyCoth r x
  | .abs, [x] => simplifyAbs r x
  | .sign, [x] => simplifySign r x
  | .floor, [x] => simplifyRounding r .down x
  | .ceiling, [x] => simplifyRounding r .up x
  | .factorial, [x] => simplifyFactorial x
  | .doubleFactorial, [x] => simplifyDoubleFactorial x
  | .modulus, [p, q] => simplifyModulus r p q
  | .re, [x] => simplifyRe r x
  | .im, [x] => simplifyIm r x
  | _, _ => none

/-- The canonical application of a function to canonical arguments. -/
def canonicalApply (r : Rules) (f : FunctionName) (args : List Expr) : Expr :=
  let special :=
    match args with
    | [e] => specialValue? f e
    | _ => none
  match special with
  | some e => e
  | none =>
    match functionRule r f args with
    | some e => e
    | none => (inexactValue r f args).getD (.apply f args)

end CircuitIR.Expr

namespace CircuitIR.Rules

/-- Operations that simplify once and use the given operations for what arises from that. -/
def refine (r : Rules) : Rules where
  sum := Expr.canonicalSum r
  product := Expr.canonicalProduct r
  power := Expr.canonicalPower r
  apply := Expr.canonicalApply r

/-- Operations that simplify to a bounded depth. -/
def atDepth : Nat → Rules
  | 0 => inert
  | n + 1 => (atDepth n).refine

/-- The operations of the simplifier. -/
def standard : Rules := atDepth 120

end CircuitIR.Rules
