import CircuitIR.Expr.Simplify

/-!
# Substitution and evaluation

Puts numbers in the place of symbols, rebuilding every part that changes in canonical form, and
evaluates closed expressions to doubles. Several symbols are replaced one after the other in the
order of their names, except that infinite and undefined values go first.
-/

namespace CircuitIR.Expr

/-- Why an expression has no value, neither a real nor another one. -/
inductive EvaluationFault where
  | outsideDomain
  | divisionByZero
  /-- The digits of an intermediate result cannot be counted. -/
  | overflow
  /-- What is left is not a number. -/
  | indefinite
deriving DecidableEq, Repr, Inhabited

/-- The bits beyond which a number is never written out. -/
def maxBits : Int := 4611686018427387904

/-- An inexact number whose whole part is never written out. -/
def isTooLong : Expr → Bool
  | .number (.float x _) => maxBits < x.magnitude
  | _ => false

/-- The fault of applying a function: the factorial of an inexact negative integer, the double
factorial of a number that has none, a remainder by zero, the exponential of a number that is too
long. -/
def applicationFault? (f : FunctionName) (args : List Expr) : Option EvaluationFault :=
  match f, args with
  | .factorial, [.number (.float x _)] =>
    if x.isInteger && x.isNegative then some .outsideDomain else none
  | .doubleFactorial, [.number n] =>
    match n.integer? with
    | some k => if k < 0 && k % 2 = 0 then some .outsideDomain else none
    | none => some .outsideDomain
  | .modulus, [_, q] => if q.facts.isZero then some .divisionByZero else none
  | .exp, [x] => if x.isTooLong then some .overflow else none
  | _, _ => none

def powerFault? (b e : Expr) : Option EvaluationFault :=
  if b.isClosed && e.isTooLong then some .overflow else none

/-- Fails if there is a fault. -/
def check : Option EvaluationFault → Except EvaluationFault Unit
  | some fault => .error fault
  | none => .ok ()

mutual

/-- Replaces a symbol by a number and simplifies what changes. -/
def replace (r : Rules) (s : String) (n : Number) : Expr → Except EvaluationFault Expr
  | .number m => .ok (.number m)
  | .constant c => .ok (.constant c)
  | .symbol t => .ok (if t = s then .number n else .symbol t)
  | .power b x =>
    if (Expr.power b x).contains (.symbol s) then do
      let b ← replace r s n b
      let x ← replace r s n x
      check (powerFault? b x)
      return r.power b x
    else .ok (.power b x)
  | .product es =>
    if (Expr.product es).contains (.symbol s) then do return r.product (← replaceAll r s n es)
    else .ok (.product es)
  | .sum es =>
    if (Expr.sum es).contains (.symbol s) then do return r.sum (← replaceAll r s n es)
    else .ok (.sum es)
  | .apply f es =>
    if (Expr.apply f es).contains (.symbol s) then do
      let as ← replaceAll r s n es
      check (applicationFault? f as)
      return r.apply f as
    else .ok (.apply f es)

def replaceAll (r : Rules) (s : String) (n : Number) :
    List Expr → Except EvaluationFault (List Expr)
  | [] => .ok []
  | e :: es => do return (← replace r s n e) :: (← replaceAll r s n es)

end

def moveToFront {α : Type} (xs : List α) (i : Nat) : List α :=
  (xs[i]?).toList ++ xs.eraseIdx i

/-- The order in which symbols are replaced: the positions of infinite and undefined values are moved
to the front, the last one first. -/
def replacementOrder (values : List (String × Number)) : List (String × Number) :=
  let special := values.zipIdx.filterMap fun (p, i) => if p.2.isFinite then none else some i
  special.reverse.foldl moveToFront values

/-- Replaces symbols by doubles, one after the other. -/
def substitute (e : Expr) (values : List (String × Float)) : Except EvaluationFault Expr :=
  (replacementOrder (values.map fun (s, x) => (s, Number.ofFloat x))).foldlM
    (fun e (s, n) => replace Rules.standard s n e) e

/-! ## Evaluation -/

/-- The outcome of evaluating a closed expression. -/
inductive Evaluated where
  | real (x : Float)
  /-- A complex, undefined or complex infinite value. -/
  | unreal
  /-- No definite value. -/
  | indefinite
deriving Inhabited

def isIndefinite : Expr → Bool
  | .constant .indefinite => true
  | _ => false

def isUnbounded : Expr → Bool
  | .number (.infinity _) => true
  | .number .undefined => true
  | .constant .complexInfinity => true
  | _ => false

/-- An application that has no numeric value at its arguments, which are closed and not real. -/
def isStuck : Expr → Bool
  | .apply .modulus _ => true
  | .apply .doubleFactorial _ => true
  | .apply .factorial [.constant .complexInfinity] => true
  | .apply .sign [.constant .complexInfinity] => true
  | _ => false

/-- The double that a closed expression denotes. -/
def evaluate (e : Expr) : Evaluated :=
  match e with
  | .number (.infinity n) => .real (Float.ofBits (if n then 0xfff0000000000000 else 0x7ff0000000000000))
  | .number .undefined => .unreal
  | .number n => .real (n.toBinary 160).toFloat
  | e =>
    if e.anySub isIndefinite then .indefinite
    else
      match e.approximate with
      | some z => if z.isReal then .real z.re.toFloat else .unreal
      | none =>
        if e.anySub isStuck then .indefinite
        else if e.anySub isUnbounded || e.isClosed then .unreal else .indefinite

end CircuitIR.Expr
