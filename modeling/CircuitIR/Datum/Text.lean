import CircuitIR.Circuit.Summary
import CircuitIR.Datum.Basic
import CircuitIR.Operation.Fields

/-!
# Texts of data

Every value has a written form, in which texts are quoted, and a display form, in which a text stands for
itself and a circuit for its summary.
-/

namespace CircuitIR

/-- A written table whose keys and values are written already. -/
def dictText (entries : List (String × String)) : String :=
  "\x7b" ++ ", ".intercalate (entries.map fun (k, v) => k ++ ": " ++ v) ++ "\x7d"

def Parameter.written : Parameter Float → String
  | .number x => FloatText.shortest x
  | .symbolic e => e.text

def ReadoutTable.written (t : ReadoutTable) : String :=
  dictText (t.map fun (q, i) => (toString q, toString i))

def FieldOf.written : FieldOf Nat (Parameter Float) → String
  | .qubit q => toString q
  | .qubits qs => tupleText (qs.map toString)
  | .parameter p => p.written
  | .parameters ps => tupleText (ps.map Parameter.written)
  | .text s => Quoted.encode s
  | .count n => toString n
  | .flag b => boolText b
  | .table none => "None"
  | .table (some t) => t.written

def OperationOf.written (op : Operation Float) : String :=
  op.name ++ "("
    ++ ", ".intercalate (op.namedFields.map fun (name, field) => name ++ "=" ++ field.written)
    ++ ")"

def Circuit.written (c : Circuit Float) : String :=
  "Circuit(" ++ listText (c.operations.map OperationOf.written) ++ ")"

/-- A double without the fraction of a whole number. -/
def FloatText.plain (x : Float) : String :=
  let cs := (FloatText.shortest x).toList
  if cs.drop (cs.length - 2) == ['.', '0'] then String.ofList (cs.take (cs.length - 2))
  else String.ofList cs

def complexText (re im : Float) : String :=
  let imaginary := FloatText.plain im
  let signed := if imaginary.toList.head? == some '-' then imaginary else "+" ++ imaginary
  if re.toBits == 0 then imaginary ++ "j" else "(" ++ FloatText.plain re ++ signed ++ "j)"

namespace Datum

mutual

/-- The written form of a value. -/
def written : Datum → String
  | null => "None"
  | bool b => boolText b
  | int n => toString n
  | real x => FloatText.shortest x
  | complex re im => complexText re im
  | text s => Quoted.encode s
  | list ds => listText (writtenAll ds)
  | tuple ds => tupleText (writtenAll ds)
  | dict es => dictText (writtenEntries es)
  | set true [] => "frozenset()"
  | set false [] => "set()"
  | set true ds => "frozenset(\x7b" ++ ", ".intercalate (writtenAll ds) ++ "\x7d)"
  | set false ds => "\x7b" ++ ", ".intercalate (writtenAll ds) ++ "\x7d"
  | expr e => e.text
  | truth b => boolText b
  | relation s _ => s
  | operation op => op.written
  | circuit c => c.contents.written
  | register constant circuits =>
    let constantText := (constant.map fun c => c.contents.written).getD "None"
    "ClassicalRegister(constant_circuit=" ++ constantText ++ ", circuits="
      ++ tupleText (circuits.map fun c => c.contents.written) ++ ")"
  | calculator _ es => "Calculator(variables=" ++ dictText (writtenEntries es) ++ ")"
  | resolver _ => "<resolver>"
  | matrix _ => "<matrix>"
  | involved all => if all then "<Involved.ALL: 'All'>" else "<Involved.NONE: 'None'>"

def writtenAll : List Datum → List String
  | [] => []
  | d :: ds => written d :: writtenAll ds

def writtenEntries : List (Datum × Datum) → List (String × String)
  | [] => []
  | (k, d) :: es => (written k, written d) :: writtenEntries es

end

/-- The display form of a value. -/
def display : Datum → Except Fault String
  | text s => .ok s
  | circuit c => c.contents.summary
  | involved all => .ok (if all then "Involved.ALL" else "Involved.NONE")
  | d => .ok d.written

end Datum

/-! ## Names of types -/

/-- The part of the library that a kind of operation belongs to. -/
def Variant.part : Variant → String
  | fixed _ => "quantum_gates"
  | angle _ => "quantum_gates"
  | pair _ => "quantum_gates"
  | controlledPhase => "quantum_gates"
  | interaction _ => "multi_qubit_gates"
  | multiControlledNot => "multi_qubit_gates"
  | fourier => "multi_qubit_gates"
  | call => "multi_qubit_gates"
  | _ => "pragmas"

def Expr.className : Expr → String
  | .number (.exact q) =>
    "sympy.core.numbers." ++
      (if q = 0 then "Zero" else if q = 1 then "One" else if q = -1 then "NegativeOne"
       else if q.den = 1 then "Integer" else if q = 1 / 2 then "Half" else "Rational")
  | .number (.float _ _) => "sympy.core.numbers.Float"
  | .number (.infinity negative) =>
    "sympy.core.numbers." ++ (if negative then "NegativeInfinity" else "Infinity")
  | .number .undefined => "sympy.core.numbers.NaN"
  | .constant .e => "sympy.core.numbers.Exp1"
  | .constant .pi => "sympy.core.numbers.Pi"
  | .constant .i => "sympy.core.numbers.ImaginaryUnit"
  | .constant .complexInfinity => "sympy.core.numbers.ComplexInfinity"
  | .constant .indefinite => "sympy.calculus.accumulationbounds.AccumulationBounds"
  | .symbol _ => "sympy.core.symbol.Symbol"
  | .power _ _ => "sympy.core.power.Pow"
  | .product _ => "sympy.core.mul.Mul"
  | .sum _ => "sympy.core.add.Add"
  | .apply f _ => f.text

namespace Datum

def typeText : Datum → String
  | null => "<class 'NoneType'>"
  | bool _ => "<class 'bool'>"
  | int _ => "<class 'int'>"
  | real _ => "<class 'float'>"
  | complex _ _ => "<class 'complex'>"
  | text _ => "<class 'str'>"
  | list _ => "<class 'list'>"
  | tuple _ => "<class 'tuple'>"
  | dict _ => "<class 'dict'>"
  | set frozen _ => if frozen then "<class 'frozenset'>" else "<class 'set'>"
  | expr (.apply f _) => f.text
  | expr e => "<class '" ++ e.className ++ "'>"
  | truth b => "<class 'sympy.logic.boolalg.Boolean" ++ boolText b ++ "'>"
  | relation _ _ => "<class 'sympy.core.relational.StrictLessThan'>"
  | operation op => "<class 'qirk.ir." ++ op.variant.part ++ "." ++ op.name ++ "'>"
  | circuit _ => "<class 'qirk.ir.quantum.Circuit'>"
  | register _ _ => "<class 'qirk.ir.register.ClassicalRegister'>"
  | calculator _ _ => "<class 'qirk.ir.dtypes.Calculator'>"
  | resolver _ => "<class 'Resolver'>"
  | matrix _ => "<class 'numpy.ndarray'>"
  | involved _ => "<enum 'Involved'>"

end Datum

end CircuitIR
