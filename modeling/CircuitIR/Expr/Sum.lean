import CircuitIR.Expr.Rules

/-!
# Canonical sums

Nested sums are flattened, numbers are added up, and terms that differ only by a number are
collected. An infinite number absorbs the terms that cannot change it, and contradictory infinities
make the sum undefined.
-/

namespace CircuitIR.Expr

/-- A sum while it is collected: the number so far (or an infinity of the complex plane) and the
other terms with their coefficients, in order of first occurrence. -/
structure Collected where
  constant : Expr
  terms : List (Expr × Number)

def isInfiniteConstant : Expr → Bool
  | .number (.infinity _) => true
  | .constant .complexInfinity => true
  | _ => false

/-- Adds `c * s` to the collected terms. -/
def addTerm (s : Expr) (c : Number) : List (Expr × Number) → List (Expr × Number)
  | [] => [(s, c)]
  | (t, d) :: ts => if t == s then (t, d.add c) :: ts else (t, d) :: addTerm s c ts

/-- Adds one term that is not a sum; `none` if the sum becomes undefined. -/
def Collected.add (k : Collected) (e : Expr) : Option Collected :=
  match e with
  | .number n =>
    if n == .undefined || (k.constant.isComplexInfinity && !n.isFinite) then none
    else
      match k.constant with
      | .number m =>
        let s := m.add n
        if s == .undefined then none else some { k with constant := .number s }
      | _ => some k
  | .constant .complexInfinity =>
    if isInfiniteConstant k.constant then none
    else some { k with constant := complexInfinity }
  | .constant .indefinite => some { k with constant := .constant .indefinite }
  | e =>
    let (c, s) := e.splitCoefficient
    let ts := addTerm s c k.terms
    if ts.any (fun t => t.2 == .undefined) then none else some { k with terms := ts }

/-- Terms that an infinite constant does not absorb. -/
def keepBeside (constant : Expr) (e : Expr) : Bool :=
  let f := e.facts
  match constant with
  | .number (.infinity false) =>
    !(f.isNonnegative || (f.isReal && f.finite == some true))
  | .number (.infinity true) =>
    !(f.isNonpositive || (f.isReal && f.finite == some true))
  | .constant .complexInfinity => !(f.finite == some true && f.real.isSome)
  | _ => true

def scaledTerm (r : Rules) (s : Expr) (c : Number) : Option Expr :=
  if c.isZero then none
  else if c.isOne then some s
  else
    match s with
    | .product fs => some (.product (.number c :: fs))
    | .sum _ => some (.product [.number c, s])
    | s => some (r.product [.number c, s])

/-- The canonical sum of canonical terms. -/
def canonicalSum (r : Rules) (es : List Expr) : Expr :=
  let es := es.filter fun e => !e.isExactZero
  match es with
  | [] => zero
  | [e] => e
  | [.number (.exact q), p@(.product _)] => .sum [rat q, p]
  | [p@(.product _), .number (.exact q)] => .sum [rat q, p]
  | _ =>
    let flat := es.filter (fun e => !e.isSum) ++ (es.filter isSum).flatMap terms
    match flat.foldlM Collected.add ⟨zero, []⟩ with
    | none => undefined
    | some k =>
      let ts := k.terms.filterMap fun (s, c) => scaledTerm r s c
      let ts := canonicalSort (ts.filter (keepBeside k.constant))
      ofTerms (if k.constant.isExactZero then ts else k.constant :: ts)

end CircuitIR.Expr
