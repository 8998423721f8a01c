import CircuitIR.Fault
import CircuitIR.Matrix.Tensor

/-!
# Embedding of matrices

A matrix on `k` qubits is lifted to `n` qubits by the positions that its qubits have among them: it becomes
the first factor of a Kronecker product with the identity, whose axes are then put where they belong. The
lifted matrix acts on the bits at the positions and leaves all other bits as they are; `lift` has it in this
form.
-/

namespace CircuitIR.ComplexMatrix

attribute [local instance (high)] instPowNat

variable {R : Type} [Scalar R]

def embeddedEntry (m : ComplexMatrix R) (positions : List Nat) (n r c : Nat) : Amplitude R :=
  m.get (Bits.select n positions r) (Bits.select n positions c) *
    (if Bits.agreeOutside n positions r c then .one else .zero)

def lift (m : ComplexMatrix R) (positions : List Nat) (n : Nat) : ComplexMatrix R :=
  .square (2 ^ n) (m.embeddedEntry positions n)

/-- The Kronecker product with the identity on the other qubits, with all axes at their positions. -/
def embedAxes (m : ComplexMatrix R) (positions : List Nat) (n : Nat) : ComplexMatrix R :=
  let others := Axes.rest n positions
  let axes := Axes.argsort (positions ++ others)
  (m.kronecker (identity (2 ^ others.length))).transposeAxes (axes ++ axes.map fun a => n + a)

/-- The positions are those of different qubits among `n`. -/
def arePositions (positions : List Int) (n : Nat) : Bool :=
  decide positions.Nodup && positions.all fun p => 0 ≤ p && p < n

/-- Lifts a matrix if it has the right size and its positions are those of different qubits. -/
def embed (m : ComplexMatrix R) (positions : List Int) (n : Nat) :
    Except Fault (ComplexMatrix R) :=
  let k := positions.length
  if m.rows ≠ 2 ^ k ∨ m.cols ≠ 2 ^ k then
    .error (.wrongShape k (tupleText [toString m.rows, toString m.cols]))
  else if arePositions positions n then .ok (m.embedAxes (positions.map Int.toNat) n)
  else .error (.invalidPositions (Fault.intList positions) (toString n))

end CircuitIR.ComplexMatrix
