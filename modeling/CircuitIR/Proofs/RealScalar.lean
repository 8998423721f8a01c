import CircuitIR.Gate.Unitary
import Mathlib.Analysis.SpecialFunctions.Trigonometric.Basic
import Mathlib.Analysis.SpecialFunctions.Sqrt
import Mathlib.Tactic.FieldSimp

/-!
# Exact scalars

The real numbers are scalars, with the circle constant itself and powers of two that are never out of
range. Amplitudes over them are the complex numbers, and `ComplexMatrix.entry` reads a matrix as a
table of complex numbers. Everything after this module speaks of entries only.
-/

namespace CircuitIR

noncomputable instance : Scalar ℝ where
  ofNat n := n
  pi := Real.pi
  cos := Real.cos
  sin := Real.sin
  sqrt := Real.sqrt
  twoPower? k := some (2 ^ k)

namespace Scalar

@[simp]
theorem ofNat_real (n : ℕ) : (ofNat n : ℝ) = n := rfl

@[simp]
theorem pi_real : (pi : ℝ) = Real.pi := rfl

@[simp]
theorem cos_real (x : ℝ) : cos x = Real.cos x := rfl

@[simp]
theorem sin_real (x : ℝ) : sin x = Real.sin x := rfl

@[simp]
theorem sqrt_real (x : ℝ) : sqrt x = √x := rfl

@[simp]
theorem half_real (x : ℝ) : half x = x / 2 := rfl

/-- The exact angle `π / 2 ^ k`, which is never out of range. -/
noncomputable def piOver (k : ℕ) : ℝ := Real.pi / 2 ^ k

@[simp]
theorem piOver?_real (k : ℕ) : piOver? ℝ k = some (piOver k) := rfl

theorem piOver_zero : piOver 0 = Real.pi := by
  simp [piOver]

theorem two_mul_piOver_succ (k : ℕ) : 2 * piOver (k + 1) = piOver k := by
  rw [piOver, piOver, pow_succ]
  field_simp

end Scalar

namespace Amplitude

/-- The complex number that an exact amplitude is. -/
def toComplex (z : Amplitude ℝ) : ℂ := ⟨z.re, z.im⟩

theorem toComplex_injective : Function.Injective toComplex := by
  rintro ⟨a, b⟩ ⟨c, d⟩ h
  simp only [toComplex, Complex.mk.injEq] at h
  rw [h.1, h.2]

@[simp]
theorem toComplex_ofReal (x : ℝ) : (ofReal x).toComplex = x := by
  apply Complex.ext <;> simp [toComplex, ofReal]

@[simp]
theorem toComplex_zero : (zero : Amplitude ℝ).toComplex = 0 := by
  simp [zero]

@[simp]
theorem toComplex_one : (one : Amplitude ℝ).toComplex = 1 := by
  simp [one]

@[simp]
theorem toComplex_i : (i : Amplitude ℝ).toComplex = Complex.I := by
  apply Complex.ext <;> simp [toComplex, i]

@[simp]
theorem toComplex_add (z w : Amplitude ℝ) : (z + w).toComplex = z.toComplex + w.toComplex := rfl

@[simp]
theorem toComplex_sub (z w : Amplitude ℝ) : (z - w).toComplex = z.toComplex - w.toComplex := by
  apply Complex.ext <;> rfl

@[simp]
theorem toComplex_mul (z w : Amplitude ℝ) : (z * w).toComplex = z.toComplex * w.toComplex := by
  apply Complex.ext <;> rfl

@[simp]
theorem toComplex_conj (z : Amplitude ℝ) :
    z.conj.toComplex = (starRingEnd ℂ) z.toComplex := rfl

@[simp]
theorem toComplex_divReal (z : Amplitude ℝ) (x : ℝ) :
    (z.divReal x).toComplex = z.toComplex / x := by
  rw [Complex.div_ofReal]
  rfl

@[simp]
theorem toComplex_phase (x : ℝ) : (phase x).toComplex = Complex.exp (x * Complex.I) := by
  apply Complex.ext
  · exact (Complex.exp_ofReal_mul_I_re x).symm
  · exact (Complex.exp_ofReal_mul_I_im x).symm

@[simp]
theorem toComplex_sum (n : ℕ) (f : ℕ → Amplitude ℝ) :
    (sum n f).toComplex = ∑ k ∈ Finset.range n, (f k).toComplex := by
  induction n with
  | zero => exact toComplex_zero
  | succ n ih =>
      rw [Finset.sum_range_succ, ← ih]
      exact toComplex_add _ _

end Amplitude

namespace ComplexMatrix

/-- An entry as a complex number. -/
noncomputable def entry (m : ComplexMatrix ℝ) (i j : ℕ) : ℂ := (m.get i j).toComplex

/-- A square matrix with the given number of rows. -/
structure HasSize (m : ComplexMatrix ℝ) (n : ℕ) : Prop where
  rows : m.rows = n
  cols : m.cols = n

/-- A square matrix with the given entries. -/
structure HasEntries (m : ComplexMatrix ℝ) (n : ℕ) (f : ℕ → ℕ → ℂ) : Prop extends HasSize m n where
  entry : ∀ i j, i < n → j < n → m.entry i j = f i j

theorem HasSize.square (n : ℕ) (f : ℕ → ℕ → Amplitude ℝ) : HasSize (.square n f) n := ⟨rfl, rfl⟩

theorem HasSize.mul {a b : ComplexMatrix ℝ} {n : ℕ} (ha : a.HasSize n) (hb : b.HasSize n) :
    (a * b).HasSize n :=
  ⟨ha.rows, hb.cols⟩

theorem entry_square {n i j : ℕ} (f : ℕ → ℕ → Amplitude ℝ) (hi : i < n) (hj : j < n) :
    entry (.square n f) i j = (f i j).toComplex :=
  congrArg Amplitude.toComplex (DenseMatrix.get_ofFn f hi hj)

theorem entry_mul {a b : ComplexMatrix ℝ} {i j : ℕ} (hi : i < a.rows) (hj : j < b.cols) :
    (a * b).entry i j = ∑ k ∈ Finset.range a.cols, a.entry i k * b.entry k j := by
  rw [entry, get_mul hi hj, Amplitude.toComplex_sum]
  rfl

@[simp]
theorem toComplex_delta (i j : ℕ) :
    (delta i j : Amplitude ℝ).toComplex = if i = j then 1 else 0 := by
  by_cases h : i = j <;> simp [delta, h]

theorem entry_diagonal {n i j : ℕ} (f : ℕ → Amplitude ℝ) (hi : i < n) (hj : j < n) :
    (diagonal n f).entry i j = if i = j then (f i).toComplex else 0 := by
  rw [diagonal, entry_square _ hi hj, apply_ite Amplitude.toComplex, Amplitude.toComplex_zero]

theorem entry_rowsAt {n i j : ℕ} (f : ℕ → ℕ) (hi : i < n) (hj : j < n) :
    (rowsAt n f : ComplexMatrix ℝ).entry i j = if f i = j then 1 else 0 := by
  rw [rowsAt, entry_square _ hi hj, toComplex_delta]

theorem HasEntries.unique {m m' : ComplexMatrix ℝ} {n : ℕ} {f : ℕ → ℕ → ℂ}
    (h : m.HasEntries n f) (h' : m'.HasEntries n f) : m = m' := by
  refine DenseMatrix.ext_get (h.rows.trans h'.rows.symm) (h.cols.trans h'.cols.symm) ?_
  intro i j hi hj
  rw [h.rows] at hi
  rw [h.cols] at hj
  exact Amplitude.toComplex_injective ((h.entry i j hi hj).trans (h'.entry i j hi hj).symm)

end ComplexMatrix

end CircuitIR
