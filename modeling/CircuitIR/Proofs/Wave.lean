import CircuitIR.Matrix.Embedding
import CircuitIR.Proofs.Assignment
import CircuitIR.Proofs.RealScalar
import Mathlib.Algebra.BigOperators.Intervals

/-!
# Waves

A wave gives a complex amplitude to every assignment. A matrix acts on waves through a list of qubits,
and this action does not depend on a frame: a matrix and its lift to a larger frame act alike
(`act_lift`), a product acts as one matrix after the other (`act_mul`), and within one frame the action
determines the matrix (`eq_of_act_eq`). Equations between matrices of different sizes and positions
thereby become equations between functions of assignments.
-/

namespace CircuitIR

open Assignment (value write ofIndex value_lt value_write write_value write_write)

/-- Amplitudes of all assignments. -/
abbrev Wave := Assignment → ℂ

namespace ComplexMatrix

/-- The action of a matrix on waves through the qubits that its factors stand for. -/
noncomputable def act (m : ComplexMatrix ℝ) (qs : List ℕ) (ψ : Wave) : Wave := fun x =>
  ∑ j ∈ Finset.range (2 ^ qs.length), m.entry (value qs x) j * ψ (write qs j x)

variable {a b m : ComplexMatrix ℝ} {qs rs frame : List ℕ}

theorem act_square (f : ℕ → ℕ → Amplitude ℝ) (qs : List ℕ) (ψ : Wave) (x : Assignment) :
    act (.square (2 ^ qs.length) f) qs ψ x
      = ∑ j ∈ Finset.range (2 ^ qs.length), (f (value qs x) j).toComplex * ψ (write qs j x) := by
  refine Finset.sum_congr rfl fun j hj => ?_
  rw [entry_square f (value_lt qs x) (Finset.mem_range.1 hj)]

theorem act_diagonal (f : ℕ → Amplitude ℝ) (qs : List ℕ) (ψ : Wave) (x : Assignment) :
    act (diagonal (2 ^ qs.length) f) qs ψ x = (f (value qs x)).toComplex * ψ x := by
  rw [diagonal, act_square, Finset.sum_eq_single (value qs x)]
  · simp
  · intro j _ hj
    simp [Ne.symm hj]
  · intro hnot
    exact absurd (Finset.mem_range.2 (value_lt qs x)) hnot

theorem act_identity (qs : List ℕ) (ψ : Wave) : act (identity (2 ^ qs.length)) qs ψ = ψ := by
  have hdiagonal : (identity (2 ^ qs.length) : ComplexMatrix ℝ)
      = diagonal (2 ^ qs.length) fun _ => .one := rfl
  funext x
  rw [hdiagonal, act_diagonal]
  simp

theorem act_mul (hqs : qs.Nodup) (ha : a.HasSize (2 ^ qs.length)) (hb : b.HasSize (2 ^ qs.length))
    (ψ : Wave) : act (a * b) qs ψ = act a qs (act b qs ψ) := by
  funext x
  calc act (a * b) qs ψ x
      = ∑ j ∈ Finset.range (2 ^ qs.length), ∑ k ∈ Finset.range (2 ^ qs.length),
          a.entry (value qs x) k * (b.entry k j * ψ (write qs j x)) := by
        refine Finset.sum_congr rfl fun j hj => ?_
        have hrow : value qs x < a.rows := ha.rows ▸ value_lt qs x
        have hcol : j < b.cols := hb.cols ▸ Finset.mem_range.1 hj
        rw [entry_mul hrow hcol, ha.cols, Finset.sum_mul]
        exact Finset.sum_congr rfl fun k _ => mul_assoc _ _ _
    _ = ∑ k ∈ Finset.range (2 ^ qs.length), a.entry (value qs x) k *
          act b qs ψ (write qs k x) := by
        rw [Finset.sum_comm]
        refine Finset.sum_congr rfl fun k hk => ?_
        rw [act, value_write hqs (Finset.mem_range.1 hk), Finset.mul_sum]
        simp only [write_write]

theorem act_add (m : ComplexMatrix ℝ) (qs : List ℕ) (ψ φ : Wave) :
    act m qs (fun x => ψ x + φ x) = fun x => act m qs ψ x + act m qs φ x := by
  funext x
  simp only [act, mul_add, Finset.sum_add_distrib]

theorem act_comm (h : ∀ q ∈ qs, q ∉ rs) (a b : ComplexMatrix ℝ) (ψ : Wave) :
    act a qs (act b rs ψ) = act b rs (act a qs ψ) := by
  have h' : ∀ q ∈ rs, q ∉ qs := fun q hq hmem => h q hmem hq
  funext x
  simp only [act, Finset.mul_sum]
  rw [Finset.sum_comm]
  refine Finset.sum_congr rfl fun k _ => Finset.sum_congr rfl fun j _ => ?_
  rw [Assignment.value_write_of_disjoint h', Assignment.value_write_of_disjoint h,
    Assignment.write_comm h]
  ring

open Classical in
/-- The wave that is concentrated on one assignment. -/
noncomputable def pointWave (y : Assignment) : Wave := fun x => if x = y then 1 else 0

theorem act_pointWave {x y : Assignment} (hqs : qs.Nodup) (m : ComplexMatrix ℝ)
    (hout : ∀ q ∉ qs, x q = y q) : act m qs (pointWave y) x = m.entry (value qs x) (value qs y) := by
  rw [act, Finset.sum_eq_single (value qs y)]
  · rw [pointWave, if_pos (Assignment.write_value_eq hout), mul_one]
  · intro j hj hne
    rw [pointWave, if_neg, mul_zero]
    rintro rfl
    exact hne (value_write hqs (Finset.mem_range.1 hj) x).symm
  · intro hnot
    exact absurd (Finset.mem_range.2 (value_lt qs y)) hnot

theorem act_pointWave_eq_zero {x y : Assignment} {q : ℕ} (hq : q ∉ qs) (m : ComplexMatrix ℝ)
    (hne : x q ≠ y q) : act m qs (pointWave y) x = 0 := by
  refine Finset.sum_eq_zero fun j _ => ?_
  rw [pointWave, if_neg, mul_zero]
  rintro rfl
  exact hne (Assignment.write_apply_of_notMem hq j x).symm

/-- Within one frame a matrix is determined by its action. -/
theorem eq_of_act_eq (hqs : qs.Nodup) (ha : a.HasSize (2 ^ qs.length))
    (hb : b.HasSize (2 ^ qs.length)) (h : ∀ ψ, act a qs ψ = act b qs ψ) : a = b := by
  have hentry : ∀ m : ComplexMatrix ℝ, ∀ i j, i < 2 ^ qs.length → j < 2 ^ qs.length →
      act m qs (pointWave (ofIndex qs j)) (ofIndex qs i) = m.entry i j := by
    intro m i j hi hj
    rw [act_pointWave hqs m fun q hq => Assignment.ofIndex_congr hq i j,
      Assignment.value_ofIndex hqs hi, Assignment.value_ofIndex hqs hj]
  refine HasEntries.unique (f := b.entry) ⟨ha, ?_⟩ ⟨hb, fun _ _ _ _ => rfl⟩
  intro i j hi hj
  rw [← hentry a i j hi hj, ← hentry b i j hi hj, h]

/-! ### Lifted matrices

The columns of a lifted matrix that count in a row are those of the assignments which differ from the
row only in the listed qubits, so the sum over the frame becomes a sum over these qubits. -/

section Lift

variable {x y : Assignment}

theorem select_value (hsub : ∀ q ∈ qs, q ∈ frame) (x : Assignment) :
    Bits.select frame.length (qs.map frame.idxOf) (value frame x) = value qs x := by
  rw [Bits.select, List.map_map]
  change Bits.ofBits _ = Bits.ofBits _
  congr 1
  refine List.map_congr_left fun q hq => ?_
  have hposition : frame.idxOf q < frame.length := List.idxOf_lt_length_of_mem (hsub q hq)
  rw [Function.comp_apply, Assignment.bit_value_getElem frame x hposition,
    List.getElem_idxOf hposition]

theorem agreeOutside_value (hframe : frame.Nodup) (hout : ∀ q ∉ frame, x q = y q) :
    Bits.agreeOutside frame.length (qs.map frame.idxOf) (value frame x) (value frame y) = true
      ↔ ∀ q ∉ qs, x q = y q := by
  have hmem : ∀ p (hp : p < frame.length), p ∈ qs.map frame.idxOf ↔ frame[p] ∈ qs := by
    intro p hp
    rw [List.mem_map]
    constructor
    · rintro ⟨q, hq, rfl⟩
      rwa [List.getElem_idxOf hp]
    · intro hq
      exact ⟨frame[p], hq, hframe.idxOf_getElem p hp⟩
  simp only [Bits.agreeOutside, List.all_eq_true, List.mem_range, Bool.or_eq_true,
    List.contains_iff_mem, beq_iff_eq]
  constructor
  · intro h q hq
    by_cases hframeMem : q ∈ frame
    · have hposition : frame.idxOf q < frame.length := List.idxOf_lt_length_of_mem hframeMem
      have := h _ hposition
      rw [hmem _ hposition, Assignment.bit_value_getElem frame x hposition,
        Assignment.bit_value_getElem frame y hposition, List.getElem_idxOf hposition] at this
      exact this.resolve_left hq
    · exact hout q hframeMem
  · intro h p hp
    rw [hmem p hp, Assignment.bit_value_getElem frame x hp, Assignment.bit_value_getElem frame y hp]
    by_cases hq : frame[p] ∈ qs
    · exact Or.inl hq
    · exact Or.inr (h _ hq)

/-- **A lifted matrix acts as the matrix itself.** The frame only has to contain the qubits. -/
theorem act_lift (hframe : frame.Nodup) (hqs : qs.Nodup) (hsub : ∀ q ∈ qs, q ∈ frame)
    (m : ComplexMatrix ℝ) (ψ : Wave) :
    act (m.lift (qs.map frame.idxOf) frame.length) frame ψ = act m qs ψ := by
  funext x
  have hout : ∀ c, ∀ q ∉ frame, x q = write frame c x q := fun c q hq =>
    (Assignment.write_apply_of_notMem hq c x).symm
  have hentry : ∀ c ∈ Finset.range (2 ^ frame.length),
      (m.lift (qs.map frame.idxOf) frame.length).entry (value frame x) c * ψ (write frame c x)
        = if Bits.agreeOutside frame.length (qs.map frame.idxOf) (value frame x) c = true then
            m.entry (value qs x) (value qs (write frame c x)) * ψ (write frame c x) else 0 := by
    intro c hc
    have hc := Finset.mem_range.1 hc
    have hselect := select_value hsub (write frame c x)
    rw [value_write hframe hc] at hselect
    rw [lift, entry_square _ (value_lt frame x) hc, embeddedEntry, select_value hsub, hselect]
    split <;> simp [entry]
  rw [act, Finset.sum_congr rfl hentry, ← Finset.sum_filter]
  set columns := (Finset.range (2 ^ frame.length)).filter fun c =>
    Bits.agreeOutside frame.length (qs.map frame.idxOf) (value frame x) c = true with hcolumns
  have hcolumn : ∀ c ∈ columns, c < 2 ^ frame.length
      ∧ write qs (value qs (write frame c x)) x = write frame c x := by
    intro c hc
    rw [hcolumns, Finset.mem_filter, Finset.mem_range] at hc
    refine ⟨hc.1, Assignment.write_value_eq ?_⟩
    rw [← value_write hframe hc.1 x] at hc
    exact (agreeOutside_value hframe (hout c)).1 hc.2
  have hback : ∀ j, write frame (value frame (write qs j x)) x = write qs j x := fun j =>
    Assignment.write_value_eq fun q hq =>
      (Assignment.write_apply_of_notMem (fun hmem => hq (hsub q hmem)) j x).symm
  refine Finset.sum_nbij' (fun c => value qs (write frame c x))
    (fun j => value frame (write qs j x)) ?_ ?_ ?_ ?_ ?_
  · intro c _
    exact Finset.mem_range.2 (value_lt qs _)
  · intro j _
    rw [hcolumns, Finset.mem_filter, Finset.mem_range]
    refine ⟨value_lt frame _, (agreeOutside_value hframe fun q hq => ?_).2 fun q hq => ?_⟩
    · rw [← hback j]
      exact hout _ q hq
    · exact (Assignment.write_apply_of_notMem hq j x).symm
  · intro c hc
    rw [(hcolumn c hc).2, value_write hframe (hcolumn c hc).1]
  · intro j hj
    rw [hback, value_write hqs (Finset.mem_range.1 hj)]
  · intro c hc
    rw [(hcolumn c hc).2]

end Lift

end ComplexMatrix

end CircuitIR
