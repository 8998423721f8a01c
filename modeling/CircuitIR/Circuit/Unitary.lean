import CircuitIR.Circuit.Basic
import CircuitIR.Gate.Unitary
import CircuitIR.Matrix.Embedding

/-!
# Unitary matrices of circuits

The matrix of a circuit is the product of the lifted matrices of its gates, in a frame of qubits that
says which qubit is which factor.
-/

namespace CircuitIR

attribute [local instance (high)] instPowNat

/-- The qubits of a matrix, from the most significant factor on. -/
structure Frame where
  size : Nat
  position? : Nat → Option Nat
  /-- The written form of the list of qubits. -/
  text : String

/-- The frame of a list of qubits. A qubit that is listed twice has its last position. -/
def Frame.ofList (qs : List Nat) : Frame where
  size := qs.length
  position? q := (qs.zipIdx.reverse.find? fun e => e.1 == q).map (·.2)
  text := listText (qs.map toString)

variable {R : Type} [Scalar R]

/-- The matrix of a gate, lifted to a frame. -/
def OperationOf.unitaryIn (op : Operation R) (frame : Frame) : Except Fault (ComplexMatrix R) := do
  if !op.variant.isGate then throw (.noMatrix op.name)
  let missing := op.qubits.filter fun q => (frame.position? q).isNone
  if !missing.isEmpty then
    throw (.outsideFrame op.name (missing.map Int.ofNat) frame.text)
  let m ← op.unitary
  m.embed ((op.qubits.filterMap frame.position?).map Int.ofNat) frame.size

namespace Circuit

def unitaryIn (c : Circuit R) (frame : Frame) : Except Fault (ComplexMatrix R) :=
  c.operations.foldlM
    (fun total op => do
      let m ← op.unitaryIn frame
      return m * total)
    (ComplexMatrix.identity (2 ^ frame.size))

/-- The frame of the involved qubits in increasing order. -/
def ownFrame (c : Circuit R) : Except Fault Frame :=
  match c.involved with
  | .all => .error .unboundedCircuit
  | .none => .ok (.ofList [])
  | .finite qs => .ok (.ofList qs)

/-- The matrix of a circuit in a frame, or else in the frame of its own qubits. -/
def unitary (c : Circuit R) (frame : Option Frame) : Except Fault (ComplexMatrix R) := do
  match frame with
  | some frame => c.unitaryIn frame
  | none => c.unitaryIn (← c.ownFrame)

end Circuit

end CircuitIR
