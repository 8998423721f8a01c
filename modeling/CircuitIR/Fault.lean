import CircuitIR.Decimal.Text
import CircuitIR.Formula.Reader
import CircuitIR.Text.Quoted

/-!
# Faults

Everything that can go wrong, by its cause. `Fault.message` gives the text that belongs to a cause,
and `Fault.kind` the class of faults that it is in. Faults of the surroundings, such as a missing
argument, have a class and no text.
-/

namespace CircuitIR

attribute [local instance (high)] instPowNat

inductive ArithmeticFault where
  | overflow
  | divisionByZero
deriving DecidableEq, Repr, Inhabited

inductive FaultKind where
  | initialization
  | remapping
  | substitution
  | decomposition
  | matrixEvaluation
  | wrongType
  | wrongValue
  | missingKey
  | outOfRange
  | noAttribute
  | arithmetic (cause : ArithmeticFault)
  | immutable
  | assertion
deriving DecidableEq, Repr, Inhabited

/-- In a pattern, the kind of all faults of arithmetic. -/
@[match_pattern] abbrev FaultKind.overflow {cause : ArithmeticFault} : FaultKind := arithmetic cause

/-- What stands where a qubit index is expected; a group of labels comes with its written form. -/
inductive QubitLabel where
  | index (n : Int)
  | flag (b : Bool)
  | number (x : Float)
  | text (s : String)
  | nothing
  | group (labels : List QubitLabel) (text : String)
  | other (text : String)
deriving Repr, Inhabited

def boolText (b : Bool) : String := if b then "True" else "False"

/-- The written form of a list whose elements are written already. -/
def listText (items : List String) : String := "[" ++ ", ".intercalate items ++ "]"

/-- The written form of a tuple whose elements are written already. -/
def tupleText (items : List String) : String :=
  match items with
  | [x] => "(" ++ x ++ ",)"
  | xs => "(" ++ ", ".intercalate xs ++ ")"

def QubitLabel.toText : QubitLabel → String
  | index n => toString n
  | flag b => boolText b
  | number x => FloatText.shortest x
  | text s => s
  | nothing => "None"
  | group _ s => s
  | other s => s

/-- A cause of failure. Values that are quoted in a message are held in their written form. -/
inductive Fault where
  | foreign (kind : FaultKind)
  -- conversion of values
  | boolAsQubit (b : Bool)
  | textAsQubits (text : String)
  | textAsParameters (text : String)
  | boolAsParameter (b : Bool)
  | logicAsParameter (text : String)
  | notAParameter (text : String)
  | unrealParameter (text : String)
  | unreadableParameter (cause : Formula.ReadError)
  -- construction
  | negativeQubit (variant field : String) (index : Int)
  | repeatedQubits (variant : String) (qubits : List Int)
  -- remapping
  | unmappedQubit (qubit : QubitLabel)
  | invalidTarget (variant : String) (target : Int) (reason : String)
  -- substitution
  | unresolvedSymbol (symbol : String) (location : Option String)
  -- the value itself is not kept
  | unrealValue (expression : String)
  | notAResolver (text : String)
  -- matrices
  | symbolicMatrix (variant : String) (parameters : List String)
  | matrixOnNoQubits (variant : String)
  | noMatrix (variant : String)
  | outsideFrame (variant : String) (qubits : List Int) (frame : String)
  | unboundedCircuit
  | wrongShape (qubits : Nat) (shape : String)
  | invalidPositions (positions size : String)
  -- decomposition
  | decompositionOnNoQubits (variant : String)
  | noDecomposition (variant : String)
  -- containers and records
  | notAnOperation (text type : String)
  | notACircuit (type : String)
  | notAConstantCircuit (type : String)
  | unnamedRecord (text : String)
  | unknownOperation (name : String)
  | otherRecord (name variant : String)
deriving Inhabited

namespace Fault

def intList (ns : List Int) : String := listText (ns.map toString)

def kind : Fault → FaultKind
  | foreign k => k
  | boolAsQubit _ => .wrongType
  | textAsQubits _ => .wrongType
  | textAsParameters _ => .wrongType
  | boolAsParameter _ => .wrongType
  | logicAsParameter _ => .wrongType
  | notAParameter _ => .wrongType
  | unrealParameter _ => .wrongType
  | unreadableParameter (.notANumber _) => .wrongType
  | unreadableParameter _ => .wrongValue
  | negativeQubit .. => .initialization
  | repeatedQubits .. => .initialization
  | unmappedQubit _ => .remapping
  | invalidTarget .. => .remapping
  | unresolvedSymbol .. => .substitution
  | unrealValue _ => .substitution
  | notAResolver _ => .wrongType
  | symbolicMatrix .. => .matrixEvaluation
  | matrixOnNoQubits _ => .matrixEvaluation
  | noMatrix _ => .matrixEvaluation
  | outsideFrame .. => .matrixEvaluation
  | unboundedCircuit => .matrixEvaluation
  | wrongShape .. => .wrongValue
  | invalidPositions .. => .wrongValue
  | decompositionOnNoQubits _ => .decomposition
  | noDecomposition _ => .decomposition
  | notAnOperation .. => .assertion
  | notACircuit _ => .wrongType
  | notAConstantCircuit _ => .wrongType
  | unnamedRecord _ => .wrongValue
  | unknownOperation _ => .wrongValue
  | otherRecord .. => .wrongValue

/-- The text of a fault; `none` for faults of the surroundings. The value that is not real is left
out at the end of its text. -/
def message? : Fault → Option String
  | foreign _ => none
  | boolAsQubit b => some ("Qubit index must be an integer, got " ++ boolText b)
  | textAsQubits s => some ("Qubits must be a sequence of integers, got " ++ s)
  | textAsParameters s => some ("Parameters must be a sequence, got " ++ s)
  | boolAsParameter b => some ("Cannot use bool " ++ boolText b ++ " as a symbolic parameter")
  | logicAsParameter s => some ("Cannot use " ++ s ++ " as a symbolic parameter")
  | notAParameter s => some ("Argument cannot be converted to a symbolic parameter: " ++ s)
  | unrealParameter s => some ("Symbolic parameter " ++ s ++ " is not real")
  | unreadableParameter (.notPlain s) =>
    some ("Parameter " ++ Quoted.encode s ++ " is not a plain arithmetic expression")
  | unreadableParameter (.unreadable s) => some ("Cannot parse parameter " ++ Quoted.encode s)
  | unreadableParameter (.notANumber s) =>
    some ("Parameter " ++ Quoted.encode s ++ " does not describe a number")
  | negativeQubit variant field n =>
    some (variant ++ "." ++ field ++ ": qubit index " ++ toString n ++ " is negative")
  | repeatedQubits variant qs =>
    some (variant ++ ": qubit indices " ++ intList qs ++ " are not unique")
  | unmappedQubit q => some ("Qubit " ++ q.toText ++ " is not part of the qubit mapping")
  | invalidTarget variant n reason =>
    some ("Remapping " ++ variant ++ " onto qubit " ++ toString n ++ " is invalid: " ++ reason)
  | unresolvedSymbol s location =>
    let text := "Symbol '" ++ s ++ "' could not be resolved"
    some (match location with
      | some l => text ++ " (in " ++ l ++ ")"
      | none => text)
  | unrealValue s => some ("Expression " ++ s ++ " evaluates to non-real")
  | notAResolver s => some (s ++ " is neither a mapping nor exposes resolve(name)")
  | symbolicMatrix variant ps =>
    some ("Cannot build the unitary of " ++ variant ++ ": symbolic parameters "
      ++ listText (ps.map Quoted.encode))
  | matrixOnNoQubits variant => some (variant ++ " acts on no qubits")
  | noMatrix variant => some (variant ++ " has no unitary matrix")
  | outsideFrame variant qs frame =>
    some (variant ++ " acts on qubits " ++ intList qs ++ " outside " ++ frame)
  | unboundedCircuit => some "Circuit involves all qubits, pass \x60qubits\x60 explicitly"
  | wrongShape k shape =>
    let n := toString (2 ^ k)
    some ("Expected a " ++ n ++ "x" ++ n ++ " matrix for " ++ toString k ++ " qubits, got " ++ shape)
  | invalidPositions ps n =>
    some ("Invalid qubit positions " ++ ps ++ " for " ++ n ++ " qubits")
  | decompositionOnNoQubits variant => some (variant ++ " cannot be decomposed on zero qubits")
  | noDecomposition variant => some (variant ++ " has no decomposition")
  | notAnOperation s type => some (s ++ " must be an Operation, got " ++ type ++ " instead")
  | notACircuit type => some ("Measurement circuits must be Circuit instances, got " ++ type)
  | notAConstantCircuit type => some ("constant_circuit must be a Circuit or None, got " ++ type)
  | unnamedRecord s => some ("Record " ++ s ++ " carries no 'hqslang' entry")
  | unknownOperation name => some ("Unknown operation '" ++ name ++ "'")
  | otherRecord name variant => some ("Record describes " ++ name ++ ", not " ++ variant)

/-- The message, empty for faults of the surroundings. -/
def message (f : Fault) : String := f.message?.getD ""

def qubit? : Fault → Option QubitLabel
  | unmappedQubit q => some q
  | invalidTarget _ n _ => some (.index n)
  | _ => none

def symbol? : Fault → Option (String × Option String)
  | unresolvedSymbol s location => some (s, location)
  | unrealValue s => some (s, none)
  | _ => none

end Fault

end CircuitIR
