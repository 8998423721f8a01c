import CircuitIR.Matrix.Bits
import CircuitIR.Matrix.Product

/-!
# Matrices as tensors

The entries of a matrix on `n` qubits, row by row, form a tensor with `2 * n` axes of size two: first the
axes of the rows, then those of the columns, the most significant bit first. Axes are put into another
order by their strides.
-/

namespace CircuitIR

attribute [local instance (high)] instPowNat

namespace Axes

/-- The indices of a list of numbers in the order of its values. -/
def argsort (xs : List Nat) : List Nat :=
  (List.range xs.length).mergeSort fun i j => xs.getD i 0 ≤ xs.getD j 0

/-- The axes among the first `n` that are not listed, in increasing order. -/
def rest (n : Nat) (axes : List Nat) : List Nat :=
  (List.range n).filter fun a => !axes.contains a

/-- The index of a tensor whose coordinates, each on its listed axis, are the coordinates of `k`. -/
def source (axes : List Nat) (k : Nat) : Nat :=
  let d := axes.length
  axes.zipIdx.foldr (fun a s => (Bits.bit d a.2 k).toNat * 2 ^ (d - 1 - a.1) + s) 0

end Axes

/-- The matrix whose axis at each place is the listed axis of a matrix. -/
def DenseMatrix.transposeAxes {α : Type} [Inhabited α] (axes : List Nat) (m : DenseMatrix α) :
    DenseMatrix α where
  rows := m.rows
  cols := m.cols
  entries := Array.ofFn fun k : Fin m.entries.size => m.entries.getD (Axes.source axes k) default
  size_eq := by simp [m.size_eq]

@[specialize]
def ComplexMatrix.kronecker {R : Type} [Scalar R] (a b : ComplexMatrix R) : ComplexMatrix R :=
  .ofFn (a.rows * b.rows) (a.cols * b.cols) fun i j =>
    a.get (i / b.rows) (j / b.cols) * b.get (i % b.rows) (j % b.cols)

end CircuitIR
