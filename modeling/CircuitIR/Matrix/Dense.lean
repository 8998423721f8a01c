/-!
# Dense matrices

A matrix is an array of its entries, row by row. `get_ofFn` gives the entries of a matrix that is made
from a function, and `ext_get` says that the entries determine the matrix.
-/

namespace CircuitIR

/-- A matrix with its entries row by row. -/
structure DenseMatrix (α : Type) where
  rows : Nat
  cols : Nat
  entries : Array α
  size_eq : entries.size = rows * cols

namespace DenseMatrix

variable {α : Type}

theorem index_lt {rows cols i j : Nat} (hi : i < rows) (hj : j < cols) :
    i * cols + j < rows * cols :=
  calc i * cols + j < i * cols + cols := Nat.add_lt_add_left hj _
    _ = (i + 1) * cols := (Nat.succ_mul i cols).symm
    _ ≤ rows * cols := Nat.mul_le_mul_right cols hi

/-- The entry in a row and a column. -/
def get [Inhabited α] (m : DenseMatrix α) (i j : Nat) : α :=
  if h : i * m.cols + j < m.entries.size then m.entries[i * m.cols + j] else default

/-- The matrix whose entries are the values of a function. -/
@[specialize]
def ofFn (rows cols : Nat) (f : Nat → Nat → α) : DenseMatrix α where
  rows := rows
  cols := cols
  entries := Array.ofFn fun k : Fin (rows * cols) => f (k.val / cols) (k.val % cols)
  size_eq := by simp

@[inline]
def square (n : Nat) (f : Nat → Nat → α) : DenseMatrix α := ofFn n n f

@[simp]
theorem rows_ofFn (rows cols : Nat) (f : Nat → Nat → α) : (ofFn rows cols f).rows = rows := rfl

@[simp]
theorem cols_ofFn (rows cols : Nat) (f : Nat → Nat → α) : (ofFn rows cols f).cols = cols := rfl

theorem get_ofFn [Inhabited α] {rows cols i j : Nat} (f : Nat → Nat → α) (hi : i < rows)
    (hj : j < cols) : (ofFn rows cols f).get i j = f i j := by
  have hindex := index_lt hi hj
  have hdiv : (i * cols + j) / cols = i := by
    rw [Nat.mul_comm, Nat.mul_add_div (by omega), Nat.div_eq_of_lt hj, Nat.add_zero]
  have hmod : (i * cols + j) % cols = j := by
    rw [Nat.mul_comm, Nat.mul_add_mod, Nat.mod_eq_of_lt hj]
  simp [get, ofFn, hindex, hdiv, hmod]

/-- A matrix is determined by its size and its entries. -/
theorem ext_get [Inhabited α] {m m' : DenseMatrix α} (hrows : m.rows = m'.rows)
    (hcols : m.cols = m'.cols)
    (h : ∀ i j, i < m.rows → j < m.cols → m.get i j = m'.get i j) : m = m' := by
  obtain ⟨rows, cols, entries, hsize⟩ := m
  obtain ⟨rows', cols', entries', hsize'⟩ := m'
  simp only at hrows hcols
  subst hrows hcols
  congr
  apply Array.ext (hsize.trans hsize'.symm)
  intro k hk hk'
  have hlt : k < rows * cols := hsize ▸ hk
  have hpos : 0 < cols := Nat.pos_of_ne_zero fun h0 => by simp [h0] at hlt
  have hrow : k / cols < rows := (Nat.div_lt_iff_lt_mul hpos).2 hlt
  have hindex : k / cols * cols + k % cols = k := by rw [Nat.mul_comm]; exact Nat.div_add_mod k cols
  simpa [get, hindex, hk, hk'] using h (k / cols) (k % cols) hrow (Nat.mod_lt _ hpos)

def row [Inhabited α] (m : DenseMatrix α) (i : Nat) : List α := (List.range m.cols).map (m.get i)

def toRows [Inhabited α] (m : DenseMatrix α) : List (List α) := (List.range m.rows).map m.row

/-- The matrix with the given rows, which must have equal lengths. -/
def ofRows? (rows : List (List α)) : Option (DenseMatrix α) :=
  let cols := (rows.headD []).length
  let entries := rows.flatten.toArray
  if h : entries.size = rows.length * cols then
    if rows.all fun r => r.length == cols then some ⟨rows.length, cols, entries, h⟩ else none
  else none

end DenseMatrix

end CircuitIR
