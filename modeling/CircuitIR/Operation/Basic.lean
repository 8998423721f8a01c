import CircuitIR.Parameter

/-!
# Operations

The operations of a circuit: gates on one, two and many qubits, calls of gates defined elsewhere,
pragmas, measurements and definitions of classical registers. The type is over the type of qubit
indices and counts and the type of parameters: drafts have arbitrary integers as indices, operations
have natural numbers.
-/

namespace CircuitIR

/-- Gates on one qubit without a parameter. -/
inductive FixedGate where
  | hadamard | pauliX | pauliY | pauliZ | s | t | sqrtPauliX | invSqrtPauliX
deriving DecidableEq, Repr, Inhabited

/-- Gates on one qubit with an angle. -/
inductive AngleGate where
  | rotateX | rotateY | rotateZ
  /-- A phase on the second basis state. -/
  | phaseShift
deriving DecidableEq, Repr, Inhabited

/-- Gates on two qubits without a parameter. -/
inductive PairGate where
  | cnot | controlledPauliZ | swap
deriving DecidableEq, Repr, Inhabited

/-- Interactions of all listed qubits with one angle. -/
inductive Interaction where
  /-- The gate `exp (-i θ/2 X ⊗ ... ⊗ X)`. -/
  | ms
  /-- The gate `exp (-i θ/2 Z ⊗ ... ⊗ Z)`. -/
  | zz
deriving DecidableEq, Repr, Inhabited

/-- Types of classical registers. -/
inductive RegisterType where
  | bit | float
deriving DecidableEq, Repr, Inhabited

inductive Variant where
  | fixed (gate : FixedGate)
  | angle (gate : AngleGate)
  | pair (gate : PairGate)
  | controlledPhase
  | interaction (gate : Interaction)
  | multiControlledNot
  | fourier
  | call
  | globalPhase
  | setMeasurements
  | repeatedMeasurement
  | reset
  | measure
  | definition (type : RegisterType)
deriving DecidableEq, Repr, Inhabited

/-- The name of a kind of operation, as records and texts have it. -/
def Variant.name : Variant → String
  | fixed .hadamard => "Hadamard"
  | fixed .pauliX => "PauliX"
  | fixed .pauliY => "PauliY"
  | fixed .pauliZ => "PauliZ"
  | fixed .s => "SGate"
  | fixed .t => "TGate"
  | fixed .sqrtPauliX => "SqrtPauliX"
  | fixed .invSqrtPauliX => "InvSqrtPauliX"
  | angle .rotateX => "RotateX"
  | angle .rotateY => "RotateY"
  | angle .rotateZ => "RotateZ"
  | angle .phaseShift => "PhaseShiftState1"
  | pair .cnot => "CNOT"
  | pair .controlledPauliZ => "ControlledPauliZ"
  | pair .swap => "SWAP"
  | controlledPhase => "ControlledPhaseShift"
  | interaction .ms => "MultiQubitMS"
  | interaction .zz => "MultiQubitZZ"
  | multiControlledNot => "MultiQubitCNOT"
  | fourier => "QFT"
  | call => "CallDefinedGate"
  | globalPhase => "PragmaGlobalPhase"
  | setMeasurements => "PragmaSetNumberOfMeasurements"
  | repeatedMeasurement => "PragmaRepeatedMeasurement"
  | reset => "PragmaActiveReset"
  | measure => "MeasureQubit"
  | definition .bit => "DefinitionBit"
  | definition .float => "DefinitionFloat"

def Variant.all : List Variant :=
  [.angle .rotateX, .angle .rotateY, .angle .rotateZ, .angle .phaseShift,
    .fixed .hadamard, .fixed .pauliX, .fixed .pauliY, .fixed .pauliZ, .fixed .s, .fixed .t,
    .fixed .sqrtPauliX, .fixed .invSqrtPauliX,
    .pair .cnot, .pair .controlledPauliZ, .controlledPhase, .pair .swap,
    .interaction .ms, .interaction .zz, .multiControlledNot, .fourier, .call,
    .globalPhase, .setMeasurements, .repeatedMeasurement, .reset, .measure,
    .definition .bit, .definition .float]

def Variant.ofName? (s : String) : Option Variant := Variant.all.find? fun v => v.name == s

/-- The categories above a kind of operation, from the widest on. -/
def Variant.categories : Variant → List String
  | fixed _ => ["Operation", "GateOperation", "SingleQubitGateOperation"]
  | angle .phaseShift => ["Operation", "GateOperation", "SingleQubitGateOperation"]
  | angle _ => ["Operation", "GateOperation", "SingleQubitGateOperation", "Rotation"]
  | pair _ => ["Operation", "GateOperation", "TwoQubitGateOperation"]
  | controlledPhase => ["Operation", "GateOperation", "TwoQubitGateOperation"]
  | interaction _ => ["Operation", "GateOperation", "MultiQubitGateOperation"]
  | multiControlledNot => ["Operation", "GateOperation", "MultiQubitGateOperation"]
  | fourier => ["Operation", "GateOperation", "MultiQubitGateOperation"]
  | call => ["Operation", "MultiQubitGateOperation"]
  | globalPhase => ["Operation", "PragmaOperation"]
  | setMeasurements => ["Operation", "PragmaOperation"]
  | repeatedMeasurement => ["Operation", "PragmaOperation"]
  | reset => ["Operation", "PragmaOperation"]
  | measure => ["Operation", "Measurement"]
  | definition _ => ["Operation", "Definition"]

/-- The categories and the name of a kind of operation. -/
def Variant.tags (v : Variant) : List String := v.categories ++ [v.name]

/-- The operation acts as a unitary transform on its qubits. -/
def Variant.isGate : Variant → Bool
  | fixed _ => true
  | angle _ => true
  | pair _ => true
  | controlledPhase => true
  | interaction _ => true
  | multiControlledNot => true
  | fourier => true
  | _ => false

/-- The operation is a gate on a list of qubits with a decomposition. -/
def Variant.isMultiQubitGate : Variant → Bool
  | interaction _ => true
  | multiControlledNot => true
  | fourier => true
  | _ => false

/-- A routing of qubits to readout indices, in the order of insertion. -/
abbrev ReadoutTable := List (Int × Int)

/-- An operation over types of indices and parameters. -/
inductive OperationOf (I P : Type) where
  | fixed (gate : FixedGate) (qubit : I)
  | angle (gate : AngleGate) (qubit : I) (theta : P)
  | pair (gate : PairGate) (control target : I)
  /-- A phase on the last of the four basis states of two qubits. -/
  | controlledPhase (control target : I) (theta : P)
  | interaction (gate : Interaction) (qubits : List I) (theta : P)
  /-- A bit flip of the last qubit, controlled by all others. -/
  | multiControlledNot (qubits : List I)
  /-- The Fourier transform, bit-reversed without `swaps`. -/
  | fourier (qubits : List I) (swaps inverse : Bool)
  /-- A call of a gate that is defined elsewhere. -/
  | call (name : String) (qubits : List I) (parameters : List P)
  | globalPhase (phase : P)
  | setMeasurements (count : I) (readout : String)
  /-- A measurement of all qubits; qubits absent from the table keep their own index. -/
  | repeatedMeasurement (readout : String) (count : I) (table : Option ReadoutTable)
  | reset (qubit : I)
  | measure (qubit : I) (readout : String) (index : I)
  | definition (type : RegisterType) (name : String) (length : I) (isOutput : Bool)
deriving Inhabited

/-- An operation whose indices are not checked yet. -/
abbrev Draft (R : Type) := OperationOf Int (Parameter R)

/-- An operation. -/
abbrev Operation (R : Type) := OperationOf Nat (Parameter R)

namespace OperationOf

variable {I J P Q R : Type}

def variant : OperationOf I P → Variant
  | fixed g _ => .fixed g
  | angle g _ _ => .angle g
  | pair g _ _ => .pair g
  | controlledPhase _ _ _ => .controlledPhase
  | interaction g _ _ => .interaction g
  | multiControlledNot _ => .multiControlledNot
  | fourier _ _ _ => .fourier
  | call _ _ _ => .call
  | globalPhase _ => .globalPhase
  | setMeasurements _ _ => .setMeasurements
  | repeatedMeasurement _ _ _ => .repeatedMeasurement
  | reset _ => .reset
  | measure _ _ _ => .measure
  | definition t _ _ _ => .definition t

def name (op : OperationOf I P) : String := op.variant.name

/-- The qubits that an operation names as its own, in the order of its fields. -/
def qubits : OperationOf I P → List I
  | fixed _ q => [q]
  | angle _ q _ => [q]
  | pair _ c t => [c, t]
  | controlledPhase c t _ => [c, t]
  | interaction _ qs _ => qs
  | multiControlledNot qs => qs
  | fourier qs _ _ => qs
  | call _ qs _ => qs
  | reset q => [q]
  | measure q _ _ => [q]
  | _ => []

/-- The parameters of an operation, in the order of its fields. -/
def parameters : OperationOf I P → List P
  | angle _ _ θ => [θ]
  | controlledPhase _ _ θ => [θ]
  | interaction _ _ θ => [θ]
  | call _ _ ps => ps
  | globalPhase φ => [φ]
  | _ => []

/-- Sends the indices and counts of an operation through two functions, in the order of its fields.
Each gets the name of the field. -/
def traverseIndices {m : Type → Type} [Monad m] (onQubit onCount : String → I → m J) :
    OperationOf I P → m (OperationOf J P)
  | fixed g q => do return fixed g (← onQubit "qubit" q)
  | angle g q θ => do return angle g (← onQubit "qubit" q) θ
  | pair g c t => do return pair g (← onQubit "control" c) (← onQubit "target" t)
  | controlledPhase c t θ => do
    return controlledPhase (← onQubit "control" c) (← onQubit "target" t) θ
  | interaction g qs θ => do return interaction g (← qs.mapM (onQubit "qubits")) θ
  | multiControlledNot qs => do return multiControlledNot (← qs.mapM (onQubit "qubits"))
  | fourier qs s i => do return fourier (← qs.mapM (onQubit "qubits")) s i
  | call n qs ps => do return call n (← qs.mapM (onQubit "qubits")) ps
  | globalPhase φ => pure (globalPhase φ)
  | setMeasurements k r => do return setMeasurements (← onCount "number_measurements" k) r
  | repeatedMeasurement r k t => do
    return repeatedMeasurement r (← onCount "number_measurements" k) t
  | reset q => do return reset (← onQubit "qubit" q)
  | measure q r k => do
    return measure (← onQubit "qubit" q) r (← onCount "readout_index" k)
  | definition t n k o => do return definition t n (← onCount "length" k) o

/-- Sends the parameters of an operation through a function, in the order of its fields. -/
def traverseParameters {m : Type → Type} [Monad m] (f : P → m Q) :
    OperationOf I P → m (OperationOf I Q)
  | fixed g q => pure (fixed g q)
  | angle g q θ => do return angle g q (← f θ)
  | pair g c t => pure (pair g c t)
  | controlledPhase c t θ => do return controlledPhase c t (← f θ)
  | interaction g qs θ => do return interaction g qs (← f θ)
  | multiControlledNot qs => pure (multiControlledNot qs)
  | fourier qs s i => pure (fourier qs s i)
  | call n qs ps => do return call n qs (← ps.mapM f)
  | globalPhase φ => do return globalPhase (← f φ)
  | setMeasurements k r => pure (setMeasurements k r)
  | repeatedMeasurement r k t => pure (repeatedMeasurement r k t)
  | reset q => pure (reset q)
  | measure q r k => pure (measure q r k)
  | definition t n k o => pure (definition t n k o)

/-- The draft with the same content. -/
def toDraft (op : Operation R) : Draft R :=
  let widen (_ : String) (n : Nat) : Id Int := pure n
  Id.run (op.traverseIndices widen widen)

/-- Some parameter is still symbolic. -/
def isParametrized (op : OperationOf I (Parameter R)) : Bool := op.parameters.any Parameter.isSymbolic

/-- The free symbols of all parameters. -/
def symbols (op : OperationOf I (Parameter R)) : List String :=
  op.parameters.flatMap Parameter.symbols

end OperationOf

end CircuitIR
