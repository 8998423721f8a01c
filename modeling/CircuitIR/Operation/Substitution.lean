import CircuitIR.Log.Entry
import CircuitIR.Operation.Basic

/-!
# Substitution of parameters

A resolver gives numbers to names. To substitute a symbolic parameter, all its symbols are resolved
in the order of their names before anything is computed; the value must be a real number.
-/

namespace CircuitIR

/-- The answer of a resolver to a name. -/
inductive Resolution where
  | value (x : Float)
  /-- The name is unknown. -/
  | unresolved
  /-- The resolver fails on the name in a way of its own. -/
  | failed

/-- Gives numbers to names. The answer depends on the name alone, and a failure on a name is
reported as that of its symbol: resolvers that keep a state are left out, and so are resolvers
that raise an error of substitution for another name. -/
abbrev Resolver := String → Resolution

/-- The resolver that knows the names of a table; of equal names the first counts. -/
def Resolver.ofList (values : List (String × Float)) : Resolver := fun name =>
  match values.lookup name with
  | some x => .value x
  | none => .unresolved

/-- The number that a symbol in a text stands for. -/
def Resolver.resolveSymbol (r : Resolver) (text name : String) : Traced Float :=
  match r name with
  | .value x => pure x
  | .unresolved => do
    Traced.log .parameters ("Unresolved symbol '" ++ name ++ "' in " ++ text)
    Traced.fail (.unresolvedSymbol name none)
  | .failed => do
    Traced.logForeign .parameters
    Traced.fail (.unresolvedSymbol name none)

/-- The numbers that the symbols in a text stand for. -/
def Resolver.resolveSymbols (r : Resolver) (text : String) (names : List String) :
    Traced (List (String × Float)) :=
  names.mapM fun name => do return (name, ← r.resolveSymbol text name)

def Expr.EvaluationFault.kind : Expr.EvaluationFault → FaultKind
  | .outsideDomain => .wrongValue
  | .divisionByZero => .arithmetic .divisionByZero
  | .overflow => .arithmetic .overflow
  | .indefinite => .wrongType

/-- The value of an expression with numbers in the place of its symbols. -/
def Expr.valueAt (e : Expr) (values : List (String × Float)) : Except Fault Float :=
  match e.substitute values with
  | .error fault => .error (.foreign fault.kind)
  | .ok closed =>
    match closed.evaluate with
    | .real x => .ok x
    | .unreal => .error (.unrealValue e.text)
    | .indefinite => .error (.foreign .wrongType)

def Parameter.substitute (p : Parameter Float) (r : Resolver) : Traced Float :=
  match p with
  | .number x => pure x
  | .symbolic e => do
    let values ← r.resolveSymbols e.text e.symbols
    e.valueAt values

def OperationOf.substitute (op : Operation Float) (r : Resolver) : Traced (Operation Float) :=
  op.traverseParameters fun p => do return .number (← p.substitute r)

end CircuitIR
