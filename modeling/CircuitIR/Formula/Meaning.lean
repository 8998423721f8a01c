import CircuitIR.Formula.Syntax
import CircuitIR.Formula.Value

/-!
# Meaning of formulas

Evaluates the tree of a formula. A name means the value that was assigned to it inside the formula,
its symbol, or one of the fixed functions and constants, in this order. The result `none` means that
the formula has no value.
-/

namespace CircuitIR.Formula

/-- What names mean: assigned values and the names of symbols. -/
structure Scope where
  assigned : List (String × Value)
  symbols : List (String × String)

/-- The value of a name with a fixed meaning. -/
def fixedMeaning? (s : String) : Option Value :=
  let elementary (f : FunctionName) : Option Value := some (.function (.elementary f))
  match s with
  | "pi" => some (.expr .pi)
  | "sqrt" => some (.function .sqrt)
  | "exp" => elementary .exp
  | "log" => elementary .log
  | "sin" => elementary .sin
  | "cos" => elementary .cos
  | "tan" => elementary .tan
  | "asin" => elementary .asin
  | "acos" => elementary .acos
  | "atan" => elementary .atan
  | "atan2" => elementary .atan2
  | "sinh" => elementary .sinh
  | "cosh" => elementary .cosh
  | "tanh" => elementary .tanh
  | "Abs" => elementary .abs
  | "abs" => elementary .abs
  | "sign" => elementary .sign
  | "floor" => elementary .floor
  | "ceiling" => elementary .ceiling
  | "factorial" => elementary .factorial
  | "factorial2" => elementary .doubleFactorial
  | "Integer" => some (.function .integer)
  | "Float" => some (.function .inexact)
  | "Rational" => some (.function .fraction)
  | "Symbol" => some (.function .symbol)
  | _ => none

/-- Identifiers with a compatibility variant are looked up under another spelling and not found. -/
def isLookedUp (s : String) : Bool :=
  s.toList.all fun c => CharacterClass.isIdentifierRest c && !CharacterClass.isCompatibilityVariant c

def Scope.value? (scope : Scope) (s : String) : Option Value :=
  if !isLookedUp s then none
  else
    match scope.assigned.find? fun p => p.1 == s with
    | some (_, v) => some v
    | none =>
      match symbolOf? scope.symbols s with
      | some name => some (.expr (.symbol name))
      | none => fixedMeaning? s

/-- An evaluation: it may have no value, and it may assign names. -/
abbrev Evaluation (α : Type) := StateT Scope Option α

def assign (s : String) (v : Value) : Evaluation Unit :=
  modify fun scope => { scope with assigned := (s, v) :: scope.assigned }

/-- The constructor of symbols and inexact numbers takes a quoted text. -/
def callQuoted? (f s : String) : Option Value :=
  if f == "Symbol" then some (.expr (.symbol s))
  else if f == "Float" then (Value.readInexact? s).map fun n => .expr (.number n)
  else none

/-- The first undecided or negative answer of a chain of comparisons ends it. -/
def chain? : Value → List (String × Value) → Option Value
  | _, [] => some (.truth true)
  | a, [(s, b)] => Value.compare? s a b
  | a, (s, b) :: rest =>
    match Value.compare? s a b with
    | none => none
    | some v =>
      match v.truth? with
      | none => none
      | some true => chain? b rest
      | some false => some v

mutual

def evaluate : Tree → Evaluation Value
  | .name s => do
    let scope ← get
    scope.value? s
  | .integer s => (Value.readInteger? s).map fun n => .plain n
  | .quoted _ => some .other
  | .ellipsis => pure .other
  | .unary s t => do
    let v ← evaluate t
    Value.unary? s v
  | .binary s a b => do
    let x ← evaluate a
    let y ← evaluate b
    Value.binary? s x y
  | .compare a rest => do
    let x ← evaluate a
    let ys ← evaluateOperands rest
    chain? x ys
  | .both a b => do
    let x ← evaluate a
    let t ← x.truth?
    if t then evaluate b else pure x
  | .either a b => do
    let x ← evaluate a
    let t ← x.truth?
    if t then pure x else evaluate b
  | .negation t => do
    let x ← evaluate t
    let b ← x.truth?
    pure (.answer (!b))
  | .choose condition yes no => do
    let x ← evaluate condition
    let t ← x.truth?
    if t then evaluate yes else evaluate no
  | .assign s t => do
    let v ← evaluate t
    assign s v
    pure v
  | .call (.name f) [(none, .quoted s)] => callQuoted? f s
  | .call f args => do
    let g ← evaluate f
    let (positional, option) ← evaluateArguments args
    Value.call? g positional option
  | .attribute t name => do
    let v ← evaluate t
    Value.attribute? v name
  | .item t index => do
    let v ← evaluate t
    let i ← evaluate index
    Value.item? v i
  | .slice => pure .other
  | .tuple ts => do
    let vs ← evaluateAll ts
    pure (.collection .tuple vs)
  | .list ts => do
    let vs ← evaluateAll ts
    pure (.collection .list vs)
  | .set ts => do
    let vs ← evaluateAll ts
    if vs.all Value.isHashable then pure (.collection .set vs) else none
  | .table entries => do
    let keys ← evaluateEntries entries
    if keys.all Value.isHashable then pure .other else none

def evaluateAll : List Tree → Evaluation (List Value)
  | [] => pure []
  | t :: ts => do
    let v ← evaluate t
    let vs ← evaluateAll ts
    pure (v :: vs)

def evaluateOperands : List (String × Tree) → Evaluation (List (String × Value))
  | [] => pure []
  | (s, t) :: ts => do
    let v ← evaluate t
    let vs ← evaluateOperands ts
    pure ((s, v) :: vs)

/-- Positional arguments and the value of the option `evaluate`; other named arguments are
refused. -/
def evaluateArguments : List (Option String × Tree) → Evaluation (List Value × Option Value)
  | [] => pure ([], none)
  | (none, t) :: ts => do
    let v ← evaluate t
    let (vs, option) ← evaluateArguments ts
    pure (v :: vs, option)
  | (some s, t) :: ts => do
    let v ← evaluate t
    let (vs, option) ← evaluateArguments ts
    if s == "evaluate" && vs.isEmpty && option.isNone then pure ([], some v) else none

/-- The keys of a table; its values are evaluated as well. -/
def evaluateEntries : List (Tree × Tree) → Evaluation (List Value)
  | [] => pure []
  | (k, v) :: es => do
    let key ← evaluate k
    let _ ← evaluate v
    let keys ← evaluateEntries es
    pure (key :: keys)

end

end CircuitIR.Formula
