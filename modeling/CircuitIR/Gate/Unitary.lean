import CircuitIR.Matrix.Bits
import CircuitIR.Matrix.Product
import CircuitIR.Operation.Basic
import CircuitIR.Fault

/-!
# Unitary matrices of gates

The closed form of every gate. The first qubit of a gate is the most significant factor, and the control
of a controlled gate comes before its target.
-/

namespace CircuitIR

attribute [local instance (high)] instPowNat

open ComplexMatrix

variable {R : Type} [Scalar R]

/-- The matrix with two rows. -/
def ComplexMatrix.twoByTwo (a b c d : Amplitude R) : ComplexMatrix R :=
  .square 2 fun i j =>
    match i, j with
    | 0, 0 => a
    | 0, _ => b
    | _, 0 => c
    | _, _ => d

/-- The matrix that has a one in column `f i` of each row `i`. -/
def ComplexMatrix.rowsAt (n : Nat) (f : Nat → Nat) : ComplexMatrix R :=
  .square n fun i j => delta (f i) j

namespace FixedGate

/-- A rotation by a right angle around the x-axis, in the direction of `unit`. -/
def quarterTurn (unit : Amplitude R) : ComplexMatrix R :=
  let c : Amplitude R := .ofReal (Scalar.cos (Scalar.pi / Scalar.ofNat 4))
  twoByTwo c (unit * c) (unit * c) c

def unitary : FixedGate → ComplexMatrix R
  | hadamard =>
    let s : R := Scalar.ofNat 1 / Scalar.sqrt (Scalar.ofNat 2)
    twoByTwo (.ofReal s) (.ofReal s) (.ofReal s) (.ofReal (-s))
  | pauliX => twoByTwo .zero .one .one .zero
  | pauliY => twoByTwo .zero .minusI .i .zero
  | pauliZ => twoByTwo .one .zero .zero .minusOne
  | s => twoByTwo .one .zero .zero .i
  | t => twoByTwo .one .zero .zero (.phase (Scalar.pi / Scalar.ofNat 4))
  | sqrtPauliX => quarterTurn .minusI
  | invSqrtPauliX => quarterTurn .i

end FixedGate

def AngleGate.unitary (θ : R) : AngleGate → ComplexMatrix R
  | rotateX =>
    let c : Amplitude R := .ofReal (Scalar.cos (Scalar.half θ))
    let s : Amplitude R := .minusI * .ofReal (Scalar.sin (Scalar.half θ))
    twoByTwo c s s c
  | rotateY =>
    let c := Scalar.cos (Scalar.half θ)
    let s := Scalar.sin (Scalar.half θ)
    twoByTwo (.ofReal c) (.ofReal (-s)) (.ofReal s) (.ofReal c)
  | rotateZ => twoByTwo (.phase (-Scalar.half θ)) .zero .zero (.phase (Scalar.half θ))
  | phaseShift => twoByTwo .one .zero .zero (.phase θ)

def exchange (a b i : Nat) : Nat := if i = a then b else if i = b then a else i

def PairGate.unitary : PairGate → ComplexMatrix R
  | cnot => rowsAt 4 (exchange 2 3)
  | controlledPauliZ => diagonal 4 fun i => if i = 3 then .minusOne else .one
  | swap => rowsAt 4 (exchange 1 2)

/-- The phase on the state in which both qubits are one. -/
def controlledPhaseUnitary (θ : R) : ComplexMatrix R :=
  diagonal 4 fun i => if i = 3 then .phase θ else .one

def Interaction.unitary (n : Nat) (θ : R) : Interaction → ComplexMatrix R
  | ms =>
    let c : Amplitude R := .ofReal (Scalar.cos (Scalar.half θ))
    let s : Amplitude R := .i * .ofReal (Scalar.sin (Scalar.half θ))
    .square (2 ^ n) fun i j => c * delta i j - s * delta i (2 ^ n - 1 - j)
  | zz =>
    diagonal (2 ^ n) fun i =>
      .phase (if Bits.weight n i % 2 = 0 then -Scalar.half θ else Scalar.half θ)

/-- The bit flip of the last of `n` qubits if all others are one. -/
def multiControlledNotUnitary (n : Nat) : ComplexMatrix R :=
  rowsAt (2 ^ n) (exchange (2 ^ n - 2) (2 ^ n - 1))

/-- An entry of the Fourier transform on `n` qubits, or of its conjugate. -/
def fourierEntry (n : Nat) (inverse : Bool) (j k : Nat) : Amplitude R :=
  let angle : R := Scalar.ofNat 2 * Scalar.pi * Scalar.ofNat (j * k) / Scalar.ofNat (2 ^ n)
  let z := (Amplitude.phase angle).divReal (Scalar.sqrt (Scalar.ofNat (2 ^ n)))
  if inverse then z.conj else z

/-- The Fourier transform on `n` qubits. Without swaps its rows are in bit-reversed order, or its columns
if it is inverse. -/
def fourierUnitary (n : Nat) (swaps inverse : Bool) : ComplexMatrix R :=
  .square (2 ^ n) fun i j =>
    if swaps then fourierEntry n inverse i j
    else if inverse then fourierEntry n inverse i (Bits.reverse n j)
    else fourierEntry n inverse (Bits.reverse n i) j

namespace OperationOf

/-- The operation with its parameters, if all of them are numbers. -/
def concrete? {I : Type} (op : OperationOf I (Parameter R)) : Option (OperationOf I R) :=
  op.traverseParameters Parameter.number?

/-- The closed form of a gate; `none` for what is not a gate. -/
def closedForm? {I : Type} : OperationOf I R → Option (ComplexMatrix R)
  | fixed g _ => some g.unitary
  | angle g _ θ => some (g.unitary θ)
  | pair g _ _ => some g.unitary
  | controlledPhase _ _ θ => some (controlledPhaseUnitary θ)
  | interaction g qs θ => some (g.unitary qs.length θ)
  | multiControlledNot qs => some (multiControlledNotUnitary qs.length)
  | fourier qs s i => some (fourierUnitary qs.length s i)
  | _ => none

def unitary (op : Operation R) : Except Fault (ComplexMatrix R) :=
  if !op.variant.isGate then .error (.noMatrix op.name)
  else if op.qubits.isEmpty then .error (.matrixOnNoQubits op.name)
  else
    match op.concrete? with
    | none => .error (.symbolicMatrix op.name (Parameter.symbolicTexts op.parameters))
    | some gate =>
      match gate.closedForm? with
      | some m => .ok m
      | none => .error (.noMatrix op.name)

end OperationOf

end CircuitIR
