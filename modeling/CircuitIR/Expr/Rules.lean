import CircuitIR.Expr.Order

/-!
# Operations of the simplifier

Canonical sums, products, powers and function applications depend on one another: a product of equal
bases is a power, a power of a product is a product of powers, and so on. `Rules` is the collection
of the four operations; each simplification rule is written against a given collection, and the
collections of bounded depth are built from each other.
-/

namespace CircuitIR

/-- The four operations that build canonical expressions from canonical operands. -/
structure Rules where
  sum : List Expr → Expr
  product : List Expr → Expr
  power : Expr → Expr → Expr
  apply : FunctionName → List Expr → Expr

namespace Rules

/-- The operations that build the tree and simplify nothing. -/
def inert : Rules where
  sum := Expr.ofTerms
  product := Expr.ofFactors
  power := .power
  apply := .apply

variable (r : Rules)

def add (a b : Expr) : Expr := r.sum [a, b]

def mul (a b : Expr) : Expr := r.product [a, b]

def neg (e : Expr) : Expr :=
  match e with
  | .number n => .number n.neg
  | .constant .complexInfinity => e
  | .product (.number n :: fs) =>
    if n.isMinusOne then .ofFactors fs else .product (.number n.neg :: fs)
  | .product fs => .product (.number .minusOne :: fs)
  | .sum _ => r.product [.minusOne, e]
  | e => .product [.number .minusOne, e]

def sub (a b : Expr) : Expr := r.sum [a, r.neg b]

def inverse (e : Expr) : Expr := r.power e .minusOne

def div (a b : Expr) : Expr :=
  if a.isOne then r.inverse b else r.product [a, r.inverse b]

def sqrt (e : Expr) : Expr := r.power e .half

def square (e : Expr) : Expr := r.power e (.int 2)

def scale (q : Rat) (e : Expr) : Expr := r.product [.rat q, e]

def apply1 (f : FunctionName) (e : Expr) : Expr := r.apply f [e]

end Rules

end CircuitIR
