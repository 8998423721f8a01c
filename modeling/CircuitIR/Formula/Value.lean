import CircuitIR.Expr.Substitution
import CircuitIR.Decimal.Reading

/-!
# Values of formulas

What a part of a formula can evaluate to: an expression, a truth value, a collection, a function and
so on. Only expressions are numbers; the other values exist because a formula may have them on the
way, or as its result. An operation that is not defined on its operands gives `none`.
-/

namespace CircuitIR.Formula

attribute [local instance (high)] instPowNat

/-- Functions that a formula can name. -/
inductive Callable where
  | elementary (f : FunctionName)
  | sqrt
  | integer
  | inexact
  | fraction
  | symbol
  /-- The method of a set that takes its only element out. -/
  | takeOnly (v : Expr)
  /-- A method without arguments that gives back what it belongs to. -/
  | itself (v : Expr)
deriving Inhabited

inductive CollectionKind where
  | tuple
  | list
  | set
deriving DecidableEq, Repr

/-- A value of a part of a formula. -/
inductive Value where
  | expr (e : Expr)
  /-- An integer outside of expressions. -/
  | plain (n : Int)
  /-- A truth value outside of expressions. -/
  | answer (b : Bool)
  /-- A truth value as a formula of its own. -/
  | truth (b : Bool)
  /-- A relation or a logical combination that is not decided. -/
  | proposition
  | function (f : Callable)
  | collection (kind : CollectionKind) (vs : List Value)
  | other
deriving Inhabited

namespace Value

/-- The rules by which values are simplified. -/
abbrev rules : Rules := Rules.standard

/-- The expression that a value is beside an expression. -/
def toExpr? : Value → Option Expr
  | expr e => some e
  | plain n => some (.int n)
  | answer b => some (.int (if b then 1 else 0))
  | _ => none

def isExpr : Value → Bool
  | expr _ => true
  | _ => false

/-- The value of a condition; an undecided proposition has none. -/
def truth? : Value → Option Bool
  | expr (.number n) => some (!n.isZero)
  | expr _ => some true
  | plain n => some (n != 0)
  | answer b => some b
  | truth b => some b
  | proposition => none
  | collection _ vs => some (!vs.isEmpty)
  | function _ => some true
  | other => some true

/-! ## Numbers as they are written -/

/-- The digits of an integer without underscores; `none` for digits behind a leading zero. -/
def readInteger? (s : String) : Option Nat :=
  let value (base : Nat) (cs : List Char) : Nat :=
    cs.foldl
      (fun n c =>
        let d := if c.isDigit then c.toNat - 48
          else if c.isUpper then c.toNat - 55 else c.toNat - 87
        base * n + d)
      0
  match s.toList.filter (· != '_') with
  | '0' :: c :: cs =>
    if c == 'x' || c == 'X' then some (value 16 cs)
    else if c == 'b' || c == 'B' then some (value 2 cs)
    else if c == 'o' || c == 'O' then some (value 8 cs)
    else if (c :: cs).all (· == '0') then some 0
    else none
  | [] => none
  | cs => if NumberReader.maxIntegerDigits < cs.length then none else some (value 10 cs)

/-- An inexact number as it is written: all its digits count for the precision, at least fifteen. -/
def readInexact? (s : String) : Option Number :=
  let cs := s.toList.filter (· != '_')
  let isExponent (c : Char) : Bool := c == 'e' || c == 'E'
  let mantissa := cs.takeWhile fun c => !isExponent c
  match NumberReader.readExponent? (cs.dropWhile fun c => !isExponent c) with
  | none => none
  | some e =>
    let whole := mantissa.takeWhile (· != '.')
    let fraction := (mantissa.dropWhile (· != '.')).drop 1
    let m := NumberReader.natOfDigits (whole ++ fraction)
    let e := e - fraction.length
    let significant := (Nat.toDigits 10 m).length
    let whole := !(mantissa.contains '.') && 0 ≤ e
    let digits := if whole && m != 0 then max significant (significant + e.toNat) else significant
    if whole && NumberReader.maxIntegerDigits < digits then none
    else
      let p := Binary.precisionOfDigits (max 15 digits)
      let q : Rat := if 0 ≤ e then (m * 10 ^ e.toNat : Nat) else mkRat m (10 ^ (-e).toNat)
      some (.float (.ofRat p q) p)

/-! ## Arithmetic -/

/-- A power of integers whose result would be too long to be written out. -/
def isExcessivePower (a b : Expr) : Bool :=
  match a.rat?, b.int? with
  | some q, some n =>
    1000000 < n.natAbs * (Binary.bitLength q.num.natAbs + Binary.bitLength q.den)
      && q != 1 && q != -1 && q != 0
  | _, _ => false

/-- The quotient of expressions; a number is divided by multiplying with the inverse. -/
def quotient (a b : Expr) : Expr :=
  match a, b with
  | .number (.exact p), .number (.exact q) =>
    if q = 0 then (if p = 0 then .undefined else .complexInfinity) else .rat (p / q)
  | .number (.float x p), .number n =>
    if n.isZero || !n.isFinite then rules.div a b
    else
      let prec := Number.jointPrecision (.float x p) n
      .number (.rounded (Binary.div prec x (n.toBinary prec)) prec)
  | a, b => rules.div a b

/-- The remainder of expressions; division by zero has none. -/
def remainder? (a b : Expr) : Option Expr :=
  if b.facts.isZero then none else some (rules.apply .modulus [a, b])

/-- The integer quotient of expressions; an integer by zero has none. -/
def integerQuotient? (a b : Expr) : Option Expr :=
  match a.int?, b with
  | some _, .number n =>
    if n.isZero then none else some (rules.apply .floor [quotient a b])
  | _, _ => some (rules.apply .floor [quotient a b])

/-- Shifts farther than this are not carried out. -/
def maxShift : Int := 16777216

/-- Operations on the bits of integers. -/
def bitOperation? (s : String) (a b : Int) : Option Int :=
  if s == "&" then some (intAnd a b)
  else if s == "|" then some (-(intAnd (-a - 1) (-b - 1)) - 1)
  else if s == "^" then
    some ((-(intAnd (-a - 1) (-b - 1)) - 1) - intAnd a b)
  else if s == "<<" then if 0 ≤ b && b ≤ maxShift then some (a <<< b.toNat) else none
  else if s == ">>" then if 0 ≤ b then some (a >>> b.toNat) else none
  else none
where
  /-- The common bits of two integers, negative ones with infinitely many leading ones. -/
  intAnd (a b : Int) : Int :=
    match a, b with
    | .ofNat m, .ofNat n => (m &&& n : Nat)
    | .ofNat m, .negSucc n => (m - (m &&& n) : Nat)
    | .negSucc m, .ofNat n => (n - (n &&& m) : Nat)
    | .negSucc m, .negSucc n => .negSucc (m ||| n)

/-- Logical operations between symbols and propositions. -/
def logicalOperation? (s : String) (a b : Value) : Option Value :=
  let logical : Value → Bool
    | expr (.symbol _) => true
    | truth _ => true
    | proposition => true
    | _ => false
  if !logical a || !logical b then none
  else
    match a, b with
    | expr x, expr y =>
      if x == y then
        if s == "&" || s == "|" then some a
        else if s == "^" then some (truth false)
        else if s == "<<" || s == ">>" then some (truth true)
        else none
      else some proposition
    | v, truth t =>
      if s == "&" then some (if t then v else truth false)
      else if s == "|" then some (if t then truth true else v)
      else some proposition
    | truth t, v =>
      if s == "&" then some (if t then v else truth false)
      else if s == "|" then some (if t then truth true else v)
      else some proposition
    | _, _ => some proposition

def arithmetic? (s : String) (a b : Expr) : Option Expr :=
  if s == "+" then some (rules.add a b)
  else if s == "-" then some (rules.sub a b)
  else if s == "*" then some (rules.mul a b)
  else if s == "/" then some (quotient a b)
  else if s == "//" then integerQuotient? a b
  else if s == "%" then remainder? a b
  else if s == "**" then
    some (if isExcessivePower a b then .power a b else rules.power a b)
  else none

def isBitOperator (s : String) : Bool := ["&", "|", "^", "<<", ">>"].contains s

def binary? (s : String) (a b : Value) : Option Value :=
  match a.isExpr || b.isExpr, a.toExpr?, b.toExpr? with
  | true, some x, some y =>
    if isBitOperator s then
      match x.int?, y.int? with
      | some m, some n => (bitOperation? s m n).map fun k => expr (.int k)
      | _, _ => logicalOperation? s a b
    else (arithmetic? s x y).map expr
  | false, some _, some _ => some other
  | _, _, _ => if isBitOperator s then logicalOperation? s a b else none

/-- A sign or a complement. -/
def unary? (s : String) : Value → Option Value
  | expr e =>
    if s == "-" then some (expr (rules.neg e))
    else if s == "+" then some (expr e)
    else
      match e, e.int? with
      | _, some n => some (expr (.int (-n - 1)))
      | .symbol _, _ => some proposition
      | _, _ => none
  | plain n => some (plain (if s == "-" then -n else if s == "+" then n else -n - 1))
  | answer _ => some other
  | truth b => if s == "~" then some (truth (!b)) else none
  | proposition => if s == "~" then some proposition else none
  | _ => none

/-! ## Comparison -/

/-- Comparison of expressions: decided for real numbers, refused for other numbers. -/
def order? (s : String) (a b : Expr) : Option Value :=
  let d := rules.sub a b
  let unreal (e : Expr) : Bool := e.isComplexInfinity || (e.isClosed && e.facts.real == some false)
  if unreal a || unreal b then none
  else
    let k := d.facts
    let positive := if k.isPositive then some true else if k.isNonpositive then some false else none
    let negative := if k.isNegative then some true else if k.isNonnegative then some false else none
    let answer := if s == ">" then positive
      else if s == "<" then negative
      else if s == ">=" then negative.map not
      else positive.map not
    some (match answer with
      | some b => truth b
      | none => proposition)

mutual

def same : Value → Value → Bool
  | collection k vs, collection l ws => k == l && sameAll vs ws
  | truth a, truth b => a == b
  | proposition, proposition => false
  | a, b =>
    match a.toExpr?, b.toExpr? with
    | some x, some y => x == y
    | _, _ => false

def sameAll : List Value → List Value → Bool
  | [], [] => true
  | a :: as, b :: bs => same a b && sameAll as bs
  | _, _ => false

end

def compare? (s : String) (a b : Value) : Option Value :=
  if s == "==" then some (answer (same a b))
  else if s == "!=" then some (answer (!same a b))
  else if s == "is" then some (answer (same a b))
  else if s == "is not" then some (answer (!same a b))
  else if s == "in" || s == "not in" then
    match b with
    | collection _ vs => some (answer (vs.any (same a) == (s == "in")))
    | _ => none
  else
    match a, b with
    | expr x, expr y => order? s x y
    | plain m, plain n =>
      some (answer (if s == "<" then m < n else if s == ">" then m > n
        else if s == "<=" then m ≤ n else m ≥ n))
    | _, _ => none

/-! ## Calls -/

/-- The numbers of arguments that a function takes. -/
def takesArguments (f : FunctionName) (n : Nat) : Bool :=
  match f with
  | .log => n = 1 || n = 2
  | .atan2 => n = 2
  | .modulus => n = 2
  | _ => n = 1

/-- Truncation of a number or a closed real expression. -/
def integerOf? (v : Value) : Option Expr :=
  match v with
  | plain n => some (.int n)
  | answer b => some (.int (if b then 1 else 0))
  | expr e => e.truncated?.map .int
  | _ => none

/-- The exact fraction that a value is. -/
def fractionOf? (v : Value) : Option Rat :=
  match v with
  | plain n => some n
  | answer b => some (if b then 1 else 0)
  | expr (.number n) => n.toRat?
  | _ => none

/-- An inexact number to a number of decimal digits. -/
def inexactOf? (v : Value) (digits : Option Nat) : Option Expr :=
  match v, digits with
  | expr (.number (.float x p)), none => some (.number (.float x p))
  | v, digits =>
    let p := Binary.precisionOfDigits (digits.getD 15)
    match v with
    | expr (.number (.infinity n)) => some (.number (.infinity n))
    | expr (.number .undefined) => some .undefined
    | expr (.constant c) => (Expr.constantValue? (p + 16) c).bind fun z =>
        if z.isReal then some (.number (.float (z.re.round p) p)) else none
    | v => (fractionOf? v).map fun q => .number (.float (.ofRat p q) p)

/-- Applies an elementary function unless the arguments are outside of its domain. With `evaluate`
false the application stays as it is. -/
def applyElementary? (f : FunctionName) (evaluate : Bool) (args : List Value) : Option Expr :=
  let exprs := args.filterMap fun
    | expr e => some e
    | plain n => some (.int n)
    | _ => none
  if exprs.length != args.length || !takesArguments f args.length then none
  else if (Expr.applicationFault? f exprs).isSome then none
  else some (if evaluate then rules.apply f exprs else .apply f exprs)

/-- A call with positional arguments and the option that turns simplification off. -/
def call? (f : Value) (args : List Value) (option : Option Value) : Option Value :=
  let evaluate : Option Bool := match option with
    | none => some true
    | some v => v.truth?
  match f, evaluate with
  | function (.elementary g), some b => (applyElementary? g b args).map expr
  | function .sqrt, some b =>
    let withFlag (e : Expr) (flag : Bool) : Value :=
      expr (if flag then rules.sqrt e else .power e .half)
    match args, option with
    | [expr e], _ => some (withFlag e b)
    | [expr e, v], none => v.truth?.map (withFlag e)
    | _, _ => none
  | function .integer, _ =>
    match args, option with
    | [v], none => (integerOf? v).map expr
    | _, _ => none
  | function .inexact, _ =>
    match args, option with
    | [v], none => (inexactOf? v none).map expr
    | [v, expr d], none =>
      match d.int? with
      | some n => if 0 < n then (inexactOf? v (some n.toNat)).map expr else none
      | none => none
    | _, _ => none
  | function .fraction, _ =>
    match args.map fractionOf?, option with
    | [some p], none => some (expr (.rat p))
    | [some p, some q], none =>
      some (expr (if q = 0 then (if p = 0 then .undefined else .complexInfinity) else .rat (p / q)))
    | _, _ => none
  | function (.takeOnly e), _ => if args.isEmpty && option.isNone then some (expr e) else none
  | function (.itself e), _ => if args.isEmpty && option.isNone then some (expr e) else none
  | _, _ => none

/-! ## Items and attributes -/

/-- The item of a list or a tuple at an index; negative indices count from the end. -/
def item? (v index : Value) : Option Value :=
  let position : Option Int := match index with
    | expr e => e.int?
    | plain n => some n
    | answer b => some (if b then 1 else 0)
    | _ => none
  match v, position with
  | collection .set _, _ => none
  | collection _ vs, some n =>
    let i := if n < 0 then n + vs.length else n
    if i < 0 then none else vs[i.toNat]?
  | _, _ => none

/-- What an expression can be asked to be; the answers are no expressions. -/
def questionNames : List String :=
  ["Add", "AlgebraicNumber", "Atom", "Boolean", "Derivative", "Dummy", "Equality", "Float",
    "Function", "Indexed", "Integer", "MatAdd", "MatMul", "Matrix", "Mul", "Not", "Number",
    "NumberSymbol", "Order", "Piecewise", "Point", "Poly", "Pow", "Rational", "Relational",
    "Symbol", "Vector", "Wild", "algebraic", "algebraic_expr", "antihermitian", "commutative",
    "comparable", "complex", "composite", "constant", "even", "extended_negative",
    "extended_nonnegative", "extended_nonpositive", "extended_nonzero", "extended_positive",
    "extended_real", "finite", "hermitian", "hypergeometric", "imaginary", "infinite", "integer",
    "irrational", "meromorphic", "negative", "noninteger", "nonnegative", "nonpositive",
    "nonzero", "number", "odd", "polar", "polynomial", "positive", "prime", "rational",
    "rational_function", "real", "scalar", "symbol", "transcendental", "zero"]

/-- Attributes of expressions that are not expressions themselves. -/
def exprAttributes : List String :=
  ["apart", "args", "args_cnc", "as_base_exp", "as_coeff_Add", "as_coeff_Mul", "as_coeff_add",
    "as_coeff_exponent", "as_coeff_mul", "as_coefficient", "as_coefficients_dict",
    "as_content_primitive", "as_dummy", "as_independent", "as_leading_term", "as_numer_denom",
    "as_ordered_factors", "as_ordered_terms", "as_poly", "as_powers_dict", "as_real_imag",
    "as_set", "as_terms", "aseries", "assumptions0", "atoms", "binary_symbols",
    "canonical_variables", "class_key", "coeff", "collect", "compare", "could_extract_minus_sign",
    "count", "count_ops", "default_assumptions", "diff", "dummy_eq", "equals",
    "extract_additively", "extract_branch_factor", "extract_multiplicatively", "find",
    "free_symbols", "func", "getO", "getn", "has", "has_free", "has_xfree", "integrate", "invert",
    "kind", "leadterm", "limit", "lseries", "match", "matches", "nseries", "primitive", "rcall",
    "replace", "round", "series", "sort_key", "subs", "taylor_term", "xreplace"]

/-- Methods without arguments that leave a number or a symbol as it is. -/
def identityMethods : List String :=
  ["as_expr", "cancel", "combsimp", "copy", "doit", "expand", "factor", "gammasimp", "normal",
    "nsimplify", "powsimp", "radsimp", "ratsimp", "refine", "removeO", "separate", "simplify",
    "together", "trigsimp"]

/-- Methods without arguments that leave a real number as it is. -/
def realIdentityMethods : List String :=
  ["adjoint", "conjugate", "transpose"]

/-- Attributes of numbers that are not expressions themselves. -/
def numberAttributes : List String :=
  ["ceiling", "cofactors", "floor", "gcd", "lcm"]

/-- Attributes of decimal numbers that are not expressions themselves. -/
def decimalAttributes : List String := ["num", "_prec", "_mpf_"]

/-- Attributes of fractions that are not expressions themselves. -/
def fractionAttributes : List String := ["factors", "limit_denominator"]

/-- The name asks an expression what it is. -/
def isQuestion (name : String) : Bool :=
  questionNames.any fun q => name == "is_" ++ q

def attribute? (v : Value) (name : String) : Option Value :=
  match v with
  | expr e =>
    if identityMethods.contains name then some (function (.itself e))
    else if name == "evalf" || name == "n" then
      match e with
      | .number (.exact _) => (inexactOf? v none).map fun x => function (.itself x)
      | e => some (function (.itself e))
    else if exprAttributes.contains name || isQuestion name then some other
    else
      match e with
      | .symbol _ =>
        if name == "name" || realIdentityMethods.contains name then some other else none
      | .number x => numberAttribute? x name
      | _ => none
  | collection .set [expr e] =>
    if name == "pop" then some (function (.takeOnly e))
    else if ["add", "clear", "copy", "discard", "remove", "union", "update"].contains name then
      some other
    else none
  | _ => none
where
  /-- An attribute that only numbers have. -/
  numberAttribute? (x : Number) (name : String) : Option Value :=
    if realIdentityMethods.contains name then some (function (.itself (.number x)))
    else if numberAttributes.contains name then some other
    else
      match x with
      | .exact q =>
        if name == "p" || name == "numerator" then some (plain q.num)
        else if name == "q" || name == "denominator" then some (plain q.den)
        else if fractionAttributes.contains name then some other
        else none
      | .float .. => if decimalAttributes.contains name then some other else none
      | _ => none

/-- A value that can be an element of a set or a key. -/
def isHashable : Value → Bool
  | collection .list _ => false
  | collection .set _ => false
  | collection .tuple vs => hashableAll vs
  | _ => true
where
  /-- All elements of a tuple can be elements of a set. -/
  hashableAll : List Value → Bool
    | [] => true
    | v :: vs => isHashable v && hashableAll vs

end Value

end CircuitIR.Formula
