import CircuitIR.Gate.Controlled
import CircuitIR.Log.Entry
import CircuitIR.Operation.Validation

/-!
# Decomposition of gates on many qubits

Every gate on a list of qubits as a sequence of gates on one and two of them. Parameters are copied as
they are, so symbolic gates decompose into symbolic ones.
-/

namespace CircuitIR

variable {I R : Type} [Scalar R]

/-- Controlled bit flips from each qubit to the next. -/
def cnotLadder : List I → List (OperationOf I (Parameter R))
  | a :: b :: qs => .pair .cnot a b :: cnotLadder (b :: qs)
  | _ => []

/-- An interaction: a rotation of the last qubit inside a ladder, in the basis of the interaction. -/
def Interaction.gates (g : Interaction) (qs : List I) (θ : Parameter R) :
    List (OperationOf I (Parameter R)) :=
  let ladder := cnotLadder qs
  let rotation := (qs.getLast?.map fun q => OperationOf.angle .rotateZ q θ).toList
  let core := ladder ++ rotation ++ ladder.reverse
  match g with
  | .zz => core
  | .ms =>
    let basis := qs.map fun q => OperationOf.fixed .hadamard q
    basis ++ core ++ basis

/-- A bit flip of the last qubit, controlled by all others; `none` without qubits. -/
def multiControlledNot? (qs : List I) : Option (List (OperationOf I (Parameter R))) :=
  match qs.reverse with
  | [] => none
  | t :: controls => some (Controlled.flip controls t)

/-- A phase on the state in which all qubits are one; `none` without qubits. -/
def multiControlledPhase? (qs : List I) (φ : Parameter R) :
    Option (List (OperationOf I (Parameter R))) :=
  match qs.reverse with
  | [] => none
  | t :: controls => some (Controlled.phase controls t φ)

namespace Fourier

/-- The gates of a Fourier transform without swaps; `none` if an angle is out of range. -/
def gates? : List I → Option (List (OperationOf I (Parameter R)))
  | [] => some []
  | t :: qs => do
    let phases ← (qs.zipIdx 1).mapM fun (q, k) => do
      let angle ← Scalar.piOver? R k
      return OperationOf.controlledPhase q t (.number angle)
    let rest ← gates? qs
    return .fixed .hadamard t :: phases ++ rest

/-- The exchanges that reverse the order of the qubits. -/
def swaps (qs : List I) : List (OperationOf I (Parameter R)) :=
  ((qs.zip qs.reverse).take (qs.length / 2)).map fun (a, b) => .pair .swap a b

def inverseGate : OperationOf I (Parameter R) → OperationOf I (Parameter R)
  | .controlledPhase c t θ => .controlledPhase c t θ.neg
  | gate => gate

/-- The gates of a Fourier transform or of its inverse. -/
def decomposition? (qs : List I) (swapped inverse : Bool) :
    Option (List (OperationOf I (Parameter R))) := do
  let forward ← gates? qs
  let exchanges := if swapped then swaps qs else []
  if inverse then return exchanges ++ (forward.reverse.map inverseGate)
  else return forward ++ exchanges

end Fourier

namespace OperationOf

/-- The elementary gates that a gate on many qubits consists of; `none` if there are none. -/
def elementary? : OperationOf I (Parameter R) → Option (List (OperationOf I (Parameter R)))
  | interaction g qs θ => some (g.gates qs θ)
  | multiControlledNot qs => multiControlledNot? qs
  | fourier qs s i => Fourier.decomposition? qs s i
  | _ => none

def decompose (op : Operation R) : Traced (List (Operation R)) :=
  if !op.variant.isMultiQubitGate then Traced.fail (.noDecomposition op.name)
  else if op.qubits.isEmpty then Traced.fail (.decompositionOnNoQubits op.name)
  else
    match op.elementary? with
    | none => Traced.foreign (.arithmetic .overflow)
    | some gates => do
      Traced.log .operations (op.name ++ " on " ++ listText (op.qubits.map toString) ++ " -> "
        ++ toString gates.length ++ " operations")
      return gates

end OperationOf

end CircuitIR
