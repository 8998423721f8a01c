import CircuitIR.Gate.Unitary
import CircuitIR.Proofs.Wave
import Mathlib.Tactic.IntervalCases

/-!
# Unitary matrices

A matrix is unitary if its product with its conjugate transpose is the identity. Matrices with a one in each
row and column, diagonals of phases and rotations of one qubit are unitary by their entries. Products and
lifted matrices are unitary by their action on waves: there a matrix and its lift are the same.
-/

namespace CircuitIR.ComplexMatrix

open Assignment (value_lt)

/-- The conjugate transpose. -/
def adjoint {R : Type} [Scalar R] (m : ComplexMatrix R) : ComplexMatrix R :=
  .ofFn m.cols m.rows fun i j => (m.get j i).conj

/-- A square matrix whose product with its conjugate transpose is the identity. -/
structure IsUnitary (m : ComplexMatrix ℝ) (n : ℕ) : Prop extends HasSize m n where
  mul_adjoint : m * m.adjoint = identity n

variable {a b m : ComplexMatrix ℝ} {n : ℕ} {qs frame : List ℕ}

theorem HasSize.adjoint (h : m.HasSize n) : m.adjoint.HasSize n := ⟨h.cols, h.rows⟩

theorem entry_adjoint (h : m.HasSize n) {i j : ℕ} (hi : i < n) (hj : j < n) :
    m.adjoint.entry i j = (starRingEnd ℂ) (m.entry j i) :=
  congrArg Amplitude.toComplex (DenseMatrix.get_ofFn _ (h.cols.symm ▸ hi) (h.rows.symm ▸ hj))

theorem hasEntries_identity (n : ℕ) :
    (identity n : ComplexMatrix ℝ).HasEntries n fun i j => if i = j then 1 else 0 where
  toHasSize := .square n delta
  entry i j hi hj := by rw [identity, entry_square _ hi hj, toComplex_delta]

theorem isUnitary_of_rows (h : m.HasSize n)
    (hrows : ∀ i j, i < n → j < n →
      ∑ k ∈ Finset.range n, m.entry i k * (starRingEnd ℂ) (m.entry j k) = if i = j then 1 else 0) :
    m.IsUnitary n where
  toHasSize := h
  mul_adjoint := by
    refine HasEntries.unique ⟨h.mul h.adjoint, fun i j hi hj => ?_⟩ (hasEntries_identity n)
    have hrow : i < m.rows := h.rows.symm ▸ hi
    have hcol : j < m.adjoint.cols := h.adjoint.cols.symm ▸ hj
    rw [entry_mul hrow hcol, h.cols, ← hrows i j hi hj]
    exact Finset.sum_congr rfl fun k hk => by rw [entry_adjoint h (Finset.mem_range.1 hk) hj]

/-! ### Closed forms -/

theorem isUnitary_diagonal {f : ℕ → Amplitude ℝ}
    (h : ∀ i, (f i).toComplex * (starRingEnd ℂ) (f i).toComplex = 1) : (diagonal n f).IsUnitary n := by
  refine isUnitary_of_rows (.square n _) fun i j hi hj => ?_
  rw [Finset.sum_eq_single i]
  · rw [entry_diagonal f hi hi, entry_diagonal f hj hi, if_pos rfl]
    by_cases hij : i = j
    · rw [if_pos hij.symm, if_pos hij, hij, h]
    · rw [if_neg (Ne.symm hij), if_neg hij, map_zero, mul_zero]
  · intro k hk hne
    rw [entry_diagonal f hi (Finset.mem_range.1 hk), if_neg (Ne.symm hne), zero_mul]
  · exact fun hnot => absurd (Finset.mem_range.2 hi) hnot

theorem isUnitary_rowsAt {f : ℕ → ℕ} (hrange : ∀ i < n, f i < n)
    (hinjective : ∀ i < n, ∀ j < n, f i = f j → i = j) :
    (rowsAt n f : ComplexMatrix ℝ).IsUnitary n := by
  refine isUnitary_of_rows (.square n _) fun i j hi hj => ?_
  rw [Finset.sum_eq_single (f i)]
  · rw [entry_rowsAt f hi (hrange i hi), entry_rowsAt f hj (hrange i hi), if_pos rfl, one_mul]
    by_cases hij : i = j
    · rw [if_pos (congrArg f hij.symm), if_pos hij, map_one]
    · rw [if_neg fun heq => hij (hinjective i hi j hj heq.symm), if_neg hij, map_zero]
  · intro k hk hne
    rw [entry_rowsAt f hi (Finset.mem_range.1 hk), if_neg (Ne.symm hne), zero_mul]
  · exact fun hnot => absurd (Finset.mem_range.2 (hrange i hi)) hnot

theorem isUnitary_twoByTwo {p q r s : Amplitude ℝ}
    (hfirst : p.toComplex * (starRingEnd ℂ) p.toComplex
      + q.toComplex * (starRingEnd ℂ) q.toComplex = 1)
    (hsecond : r.toComplex * (starRingEnd ℂ) r.toComplex
      + s.toComplex * (starRingEnd ℂ) s.toComplex = 1)
    (horthogonal : p.toComplex * (starRingEnd ℂ) r.toComplex
      + q.toComplex * (starRingEnd ℂ) s.toComplex = 0) :
    (twoByTwo p q r s).IsUnitary 2 := by
  have horthogonal' : r.toComplex * (starRingEnd ℂ) p.toComplex
      + s.toComplex * (starRingEnd ℂ) q.toComplex = 0 := by
    have hconj := congrArg (starRingEnd ℂ) horthogonal
    rw [map_add, map_mul, map_mul, Complex.conj_conj, Complex.conj_conj, map_zero] at hconj
    rw [← hconj]
    ring
  refine isUnitary_of_rows (.square 2 _) fun i j hi hj => ?_
  have h00 : (twoByTwo p q r s).entry 0 0 = p.toComplex := entry_square _ (by decide) (by decide)
  have h01 : (twoByTwo p q r s).entry 0 1 = q.toComplex := entry_square _ (by decide) (by decide)
  have h10 : (twoByTwo p q r s).entry 1 0 = r.toComplex := entry_square _ (by decide) (by decide)
  have h11 : (twoByTwo p q r s).entry 1 1 = s.toComplex := entry_square _ (by decide) (by decide)
  rw [Finset.sum_range_succ, Finset.sum_range_one]
  interval_cases i <;> interval_cases j
  · rw [h00, h01]
    exact hfirst
  · rw [h00, h10, h01, h11]
    exact horthogonal
  · rw [h10, h00, h11, h01]
    exact horthogonal'
  · rw [h10, h11]
    exact hsecond

/-! ### Products and lifted matrices -/

theorem adjoint_mul (ha : a.HasSize n) (hb : b.HasSize n) :
    (a * b).adjoint = b.adjoint * a.adjoint := by
  refine HasEntries.unique (f := (a * b).adjoint.entry) ⟨(ha.mul hb).adjoint, fun _ _ _ _ => rfl⟩
    ⟨hb.adjoint.mul ha.adjoint, fun i j hi hj => ?_⟩
  have hrow : i < b.adjoint.rows := hb.adjoint.rows.symm ▸ hi
  have hcol : j < a.adjoint.cols := ha.adjoint.cols.symm ▸ hj
  have hrow' : j < a.rows := ha.rows.symm ▸ hj
  have hcol' : i < b.cols := hb.cols.symm ▸ hi
  rw [entry_adjoint (ha.mul hb) hi hj, entry_mul hrow hcol, entry_mul hrow' hcol', hb.adjoint.cols,
    ha.cols, map_sum]
  refine Finset.sum_congr rfl fun k hk => ?_
  have hk := Finset.mem_range.1 hk
  rw [entry_adjoint hb hi hk, entry_adjoint ha hk hj, map_mul, mul_comm]

theorem act_act_adjoint (hqs : qs.Nodup) (h : m.IsUnitary (2 ^ qs.length)) (ψ : Wave) :
    act m qs (act m.adjoint qs ψ) = ψ := by
  rw [← act_mul hqs h.toHasSize h.toHasSize.adjoint, h.mul_adjoint, act_identity]

theorem isUnitary_of_act (hqs : qs.Nodup) (hsize : m.HasSize (2 ^ qs.length))
    (h : ∀ ψ, act m qs (act m.adjoint qs ψ) = ψ) : m.IsUnitary (2 ^ qs.length) where
  toHasSize := hsize
  mul_adjoint := by
    refine eq_of_act_eq hqs (hsize.mul hsize.adjoint) (.square _ delta) fun ψ => ?_
    rw [act_mul hqs hsize hsize.adjoint, h]
    exact (act_identity qs ψ).symm

theorem IsUnitary.mul (hqs : qs.Nodup) (ha : a.IsUnitary (2 ^ qs.length))
    (hb : b.IsUnitary (2 ^ qs.length)) : (a * b).IsUnitary (2 ^ qs.length) := by
  have ha' := ha.toHasSize
  have hb' := hb.toHasSize
  refine isUnitary_of_act hqs (ha'.mul hb') fun ψ => ?_
  rw [adjoint_mul ha' hb', act_mul hqs ha' hb', act_mul hqs hb'.adjoint ha'.adjoint,
    act_act_adjoint hqs hb, act_act_adjoint hqs ha]

theorem isUnitary_identity (qs : List ℕ) : (identity (2 ^ qs.length)).IsUnitary (2 ^ qs.length) :=
  isUnitary_diagonal (f := fun _ => .one) fun _ => by simp

theorem adjoint_lift {positions : List ℕ} (h : m.HasSize (2 ^ positions.length)) (n : ℕ) :
    (m.lift positions n).adjoint = m.adjoint.lift positions n := by
  have hsize : (m.lift positions n).HasSize (2 ^ n) := .square _ _
  refine HasEntries.unique (f := (m.lift positions n).adjoint.entry)
    ⟨hsize.adjoint, fun _ _ _ _ => rfl⟩ ⟨.square _ _, fun r c hr hc => ?_⟩
  have hagree : Bits.agreeOutside n positions c r = Bits.agreeOutside n positions r c := by
    rw [Bits.agreeOutside, Bits.agreeOutside]
    congr 1
    funext p
    rw [Bool.beq_comm]
  rw [entry_adjoint hsize hr hc, ComplexMatrix.lift, ComplexMatrix.lift, entry_square _ hr hc,
    entry_square _ hc hr, embeddedEntry, embeddedEntry, hagree, Amplitude.toComplex_mul,
    Amplitude.toComplex_mul, map_mul]
  have hentry := entry_adjoint h (Bits.select_lt n positions r) (Bits.select_lt n positions c)
  rw [entry, entry] at hentry
  rw [hentry]
  split <;> simp

theorem IsUnitary.lift (hframe : frame.Nodup) (hqs : qs.Nodup) (hsub : ∀ q ∈ qs, q ∈ frame)
    (h : m.IsUnitary (2 ^ qs.length)) :
    (m.lift (qs.map frame.idxOf) frame.length).IsUnitary (2 ^ frame.length) := by
  have hsize : m.HasSize (2 ^ (qs.map frame.idxOf).length) := by
    rw [List.length_map]
    exact h.toHasSize
  refine isUnitary_of_act hframe ⟨rfl, rfl⟩ fun ψ => ?_
  rw [adjoint_lift hsize, act_lift hframe hqs hsub, act_lift hframe hqs hsub,
    act_act_adjoint hqs h]

end CircuitIR.ComplexMatrix
