import CircuitIR.Matrix.Dense
import CircuitIR.Number.Scalar

/-!
# Products of complex matrices
-/

namespace CircuitIR

/-- A complex matrix over a scalar type. -/
abbrev ComplexMatrix (R : Type) := DenseMatrix (Amplitude R)

namespace ComplexMatrix

variable {R : Type} [Scalar R]

/-- One on the diagonal, zero elsewhere. -/
def delta (i j : Nat) : Amplitude R := if i = j then .one else .zero

def identity (n : Nat) : ComplexMatrix R := .square n delta

/-- The square matrix with the given diagonal. -/
def diagonal (n : Nat) (f : Nat → Amplitude R) : ComplexMatrix R :=
  .square n fun i j => if i = j then f i else .zero

@[specialize]
def mul (a b : ComplexMatrix R) : ComplexMatrix R :=
  .ofFn a.rows b.cols fun i j => Amplitude.sum a.cols fun k => a.get i k * b.get k j

instance : Mul (ComplexMatrix R) := ⟨mul⟩

theorem get_mul {a b : ComplexMatrix R} {i j : Nat} (hi : i < a.rows) (hj : j < b.cols) :
    (a * b).get i j = Amplitude.sum a.cols fun k => a.get i k * b.get k j :=
  DenseMatrix.get_ofFn _ hi hj

def conj (a : ComplexMatrix R) : ComplexMatrix R :=
  .ofFn a.rows a.cols fun i j => (a.get i j).conj

end ComplexMatrix

end CircuitIR
