import CircuitIR.Expr.Printer
import CircuitIR.Expr.Substitution
import CircuitIR.Number.Scalar

/-!
# Parameters

A parameter of an operation is a number or a symbolic expression with at least one free symbol.
-/

namespace CircuitIR

/-- A gate parameter over a type of numbers. -/
inductive Parameter (R : Type) where
  | number (x : R)
  | symbolic (e : Expr)
deriving Inhabited

namespace Parameter

variable {R : Type}

/-- The parameter has no value yet. -/
def isSymbolic : Parameter R → Bool
  | number _ => false
  | symbolic _ => true

def number? : Parameter R → Option R
  | number x => some x
  | symbolic _ => none

/-- The canonical texts of the symbolic ones among some parameters. -/
def symbolicTexts (ps : List (Parameter R)) : List String :=
  ps.filterMap fun
    | number _ => none
    | symbolic e => some e.text

def symbols : Parameter R → List String
  | number _ => []
  | symbolic e => e.symbols

variable [Scalar R]

def half : Parameter R → Parameter R
  | number x => number (Scalar.half x)
  | symbolic e => symbolic (Rules.standard.scale (1 / 2) e)

def neg : Parameter R → Parameter R
  | number x => number (-x)
  | symbolic e => symbolic (Rules.standard.neg e)

end Parameter

end CircuitIR
