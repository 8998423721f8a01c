import CircuitIR.Proofs.CircuitDecomposition
import CircuitIR.Proofs.CircuitRenaming
import CircuitIR.Proofs.UnitaryMatrix

/-!
# Unitarity of circuits

The closed forms on one and two qubits are unitary by their entries, and so is every product of them in a
frame. A gate on many qubits has the matrix of its elementary gates in the frame of its own qubits, so its
closed form needs no computation: neither for the interactions nor for the Fourier transform. One circuit
after another has the product of their matrices, since it acts as one after the other.
-/

namespace CircuitIR

open ComplexMatrix

namespace Amplitude

@[simp]
theorem toComplex_minusOne : (minusOne : Amplitude ℝ).toComplex = -1 := by
  simp [minusOne]

@[simp]
theorem toComplex_minusI : (minusI : Amplitude ℝ).toComplex = -Complex.I := by
  apply Complex.ext <;> simp [toComplex, minusI]

theorem phase_mul_conj (x : ℝ) :
    (phase x).toComplex * (starRingEnd ℂ) (phase x).toComplex = 1 := by
  rw [toComplex_phase, Complex.mul_conj, Complex.normSq_eq_norm_sq, Complex.norm_exp_ofReal_mul_I]
  norm_num

end Amplitude

/-! ## Closed forms on one and two qubits -/

namespace ComplexMatrix

theorem isUnitary_twoByTwo_real {a b c d : ℝ} (hfirst : a * a + b * b = 1)
    (hsecond : c * c + d * d = 1) (horthogonal : a * c + b * d = 0) :
    (twoByTwo (.ofReal a) (.ofReal b) (.ofReal c) (.ofReal d)).IsUnitary 2 := by
  refine isUnitary_twoByTwo ?_ ?_ ?_
  all_goals
    simp only [Amplitude.toComplex_ofReal, Complex.conj_ofReal]
    norm_cast

theorem isUnitary_twoByTwo_diagonal {a d : Amplitude ℝ}
    (ha : a.toComplex * (starRingEnd ℂ) a.toComplex = 1)
    (hd : d.toComplex * (starRingEnd ℂ) d.toComplex = 1) :
    (twoByTwo a .zero .zero d).IsUnitary 2 :=
  isUnitary_twoByTwo (by simp [ha]) (by simp [hd]) (by simp)

/-- A rotation around the x-axis, in the direction of an imaginary unit. -/
theorem isUnitary_twoByTwo_imaginary {c s : ℝ} {u : Amplitude ℝ} (hcircle : c * c + s * s = 1)
    (hunit : u.toComplex * u.toComplex = -1) (hconj : (starRingEnd ℂ) u.toComplex = -u.toComplex) :
    (twoByTwo (.ofReal c) (u * .ofReal s) (u * .ofReal s) (.ofReal c)).IsUnitary 2 := by
  have hcircle' : (c : ℂ) * c + s * s = 1 := by exact_mod_cast hcircle
  refine isUnitary_twoByTwo ?_ ?_ ?_
  all_goals
    simp only [Amplitude.toComplex_ofReal, Amplitude.toComplex_mul, Complex.conj_ofReal, map_mul, hconj]
  · linear_combination hcircle' - (s : ℂ) * s * hunit
  · linear_combination hcircle' - (s : ℂ) * s * hunit
  · ring

end ComplexMatrix

theorem FixedGate.isUnitary_quarterTurn {u : Amplitude ℝ} (hunit : u.toComplex * u.toComplex = -1)
    (hconj : (starRingEnd ℂ) u.toComplex = -u.toComplex) : (quarterTurn u).IsUnitary 2 := by
  have hcircle : Real.cos (Real.pi / 4) * Real.cos (Real.pi / 4)
      + Real.cos (Real.pi / 4) * Real.cos (Real.pi / 4) = 1 := by
    rw [Real.cos_pi_div_four, div_mul_div_comm, Real.mul_self_sqrt (by norm_num)]
    norm_num
  exact isUnitary_twoByTwo_imaginary hcircle hunit hconj

theorem FixedGate.isUnitary (g : FixedGate) : (g.unitary : ComplexMatrix ℝ).IsUnitary 2 := by
  cases g with
  | hadamard =>
      set s : ℝ := 1 / √2 with hs
      have hroot : s * s = 1 / 2 := by
        rw [hs, div_mul_div_comm, Real.mul_self_sqrt (by norm_num), one_mul]
      have hreal : (twoByTwo (.ofReal s) (.ofReal s) (.ofReal s) (.ofReal (-s))).IsUnitary 2 := by
        refine isUnitary_twoByTwo_real ?_ ?_ ?_
        · linear_combination 2 * hroot
        · linear_combination 2 * hroot
        · ring
      have hentry : s = Scalar.ofNat 1 / Scalar.sqrt (Scalar.ofNat 2) := by
        simp [hs]
      rw [FixedGate.unitary, ← hentry]
      exact hreal
  | pauliX | pauliY => refine isUnitary_twoByTwo ?_ ?_ ?_ <;> simp
  | pauliZ | s => refine isUnitary_twoByTwo_diagonal ?_ ?_ <;> simp
  | t => exact isUnitary_twoByTwo_diagonal (by simp) (Amplitude.phase_mul_conj _)
  | sqrtPauliX => exact isUnitary_quarterTurn (by simp) (by simp)
  | invSqrtPauliX => exact isUnitary_quarterTurn (by simp) (by simp)

theorem AngleGate.isUnitary (g : AngleGate) (θ : ℝ) : (g.unitary θ).IsUnitary 2 := by
  have hcircle : Real.cos (Scalar.half θ) * Real.cos (Scalar.half θ)
      + Real.sin (Scalar.half θ) * Real.sin (Scalar.half θ) = 1 := by
    rw [← sq, ← sq, Real.cos_sq_add_sin_sq]
  cases g with
  | rotateX => exact isUnitary_twoByTwo_imaginary hcircle (by simp) (by simp)
  | rotateY =>
      refine isUnitary_twoByTwo_real ?_ ?_ ?_
      · linear_combination hcircle
      · linear_combination hcircle
      · ring
  | rotateZ => exact isUnitary_twoByTwo_diagonal (Amplitude.phase_mul_conj _) (Amplitude.phase_mul_conj _)
  | phaseShift => exact isUnitary_twoByTwo_diagonal (by simp) (Amplitude.phase_mul_conj _)

theorem PairGate.isUnitary (g : PairGate) : (g.unitary : ComplexMatrix ℝ).IsUnitary 4 := by
  cases g with
  | cnot => exact isUnitary_rowsAt (by decide) (by decide)
  | swap => exact isUnitary_rowsAt (by decide) (by decide)
  | controlledPauliZ => exact isUnitary_diagonal fun i => by split <;> simp

theorem isUnitary_controlledPhase (θ : ℝ) : (controlledPhaseUnitary θ).IsUnitary 4 :=
  isUnitary_diagonal fun i => by
    split
    · exact Amplitude.phase_mul_conj θ
    · simp

theorem OperationOf.IsConcreteGate.isUnitary_of_elementary {op : Operation ℝ} (h : op.IsConcreteGate)
    (hsmall : op.variant.isMultiQubitGate = false) {m : ComplexMatrix ℝ} (hm : op.unitary = .ok m) :
    m.IsUnitary (2 ^ op.qubits.length) := by
  obtain ⟨hgate, hconcrete, -, -⟩ := h
  cases op with
  | fixed g q =>
      obtain rfl := Except.ok.inj hm
      exact g.isUnitary
  | angle g q θ =>
      obtain ⟨x, rfl⟩ := Parameter.exists_number (by simpa [isParametrized, parameters] using hconcrete)
      obtain rfl := Except.ok.inj hm
      exact g.isUnitary x
  | pair g c t =>
      obtain rfl := Except.ok.inj hm
      exact g.isUnitary
  | controlledPhase c t θ =>
      obtain ⟨x, rfl⟩ := Parameter.exists_number (by simpa [isParametrized, parameters] using hconcrete)
      obtain rfl := Except.ok.inj hm
      exact isUnitary_controlledPhase x
  | interaction | multiControlledNot | fourier => exact absurd hsmall.symm Bool.false_ne_true
  | _ => exact absurd hgate Bool.false_ne_true

/-! ## Sequences of gates -/

section Sequence

variable {frame : List ℕ} {ops ops' : List (Operation ℝ)} {u v : ComplexMatrix ℝ}

theorem unitaryIn_append (hframe : frame.Nodup) (hops : ∀ op ∈ ops, op.IsConcreteGate)
    (hops' : ∀ op ∈ ops', op.IsConcreteGate) (hsub : ∀ q, Touches ops q → q ∈ frame)
    (hsub' : ∀ q, Touches ops' q → q ∈ frame)
    (hu : (⟨ops⟩ : Circuit ℝ).unitaryIn (.ofList frame) = .ok u)
    (hv : (⟨ops'⟩ : Circuit ℝ).unitaryIn (.ofList frame) = .ok v) :
    (⟨ops ++ ops'⟩ : Circuit ℝ).unitaryIn (.ofList frame) = .ok (v * u) := by
  obtain ⟨u', hu', husize, huact⟩ := exists_unitaryIn hframe hops hsub
  obtain ⟨v', hv', hvsize, hvact⟩ := exists_unitaryIn hframe hops' hsub'
  obtain rfl := Except.ok.inj (hu'.symm.trans hu)
  obtain rfl := Except.ok.inj (hv'.symm.trans hv)
  have hrealizes : Realizes (ops ++ ops') (evolve (ops ++ ops')) :=
    ⟨List.forall_mem_append.2 ⟨hops, hops'⟩, fun _ => rfl⟩
  refine hrealizes.unitaryIn_eq_ok hframe (fun q hq => ?_) (hvsize.mul husize) fun ψ => ?_
  · exact (touches_append.1 hq).elim (hsub q) (hsub' q)
  · rw [act_mul hframe hvsize husize, huact, hvact, evolve_append]

theorem exists_isUnitary_unitaryIn (hframe : frame.Nodup) (hops : ∀ op ∈ ops, op.IsConcreteGate)
    (hunitary : ∀ op ∈ ops, ∀ m, op.unitary = .ok m → m.IsUnitary (2 ^ op.qubits.length))
    (hsub : ∀ q, Touches ops q → q ∈ frame) :
    ∃ u, (⟨ops⟩ : Circuit ℝ).unitaryIn (.ofList frame) = .ok u
      ∧ u.IsUnitary (2 ^ frame.length) := by
  induction ops with
  | nil => exact ⟨_, rfl, isUnitary_identity frame⟩
  | cons op ops ih =>
      rw [List.forall_mem_cons] at hops hunitary
      have hsubFirst : ∀ q, Touches [op] q → q ∈ frame := fun q hq =>
        hsub q (touches_cons.2 (Or.inl (by simpa using hq)))
      have hsubRest : ∀ q, Touches ops q → q ∈ frame := fun q hq =>
        hsub q (touches_cons.2 (Or.inr hq))
      have hqubits : ∀ q ∈ op.qubits, q ∈ frame := fun q hq =>
        hsubFirst q (by simpa using hq)
      obtain ⟨v, hv, hvunitary⟩ := ih hops.2 hunitary.2 hsubRest
      obtain ⟨m, hm, -⟩ := hops.1.exists_unitary
      have hlift := (hunitary.1 m hm).lift hframe hops.1.distinct hqubits
      have hfirst := (Realizes.single hops.1).unitaryIn_eq_ok hframe hsubFirst hlift.toHasSize
        fun ψ => by rw [act_lift hframe hops.1.distinct hqubits, OperationOf.action_eq_act hm]
      exact ⟨_, unitaryIn_append hframe (List.forall_mem_singleton.2 hops.1) hops.2 hsubFirst hsubRest
        hfirst hv, hvunitary.mul hframe hlift⟩

end Sequence

/-- **The closed form of every concrete gate is unitary.** -/
theorem OperationOf.IsConcreteGate.isUnitary {op : Operation ℝ} (h : op.IsConcreteGate)
    {m : ComplexMatrix ℝ} (hm : op.unitary = .ok m) : m.IsUnitary (2 ^ op.qubits.length) := by
  cases hmulti : op.variant.isMultiQubitGate with
  | false => exact h.isUnitary_of_elementary hmulti hm
  | true =>
      obtain ⟨gates, hgates, hrealizes⟩ := h.exists_elementary hmulti
      have hsmall := elementary_of_elementary? hgates
      obtain ⟨u, hu, hunitary⟩ := exists_isUnitary_unitaryIn h.distinct hrealizes.isConcrete
        (fun gate hgate m hm => (hrealizes.isConcrete gate hgate).isUnitary_of_elementary
          (hsmall gate hgate) hm)
        fun q hq => (touches_elementary hgates).1 hq
      have hsame : (⟨gates⟩ : Circuit ℝ).unitaryIn (.ofList op.qubits) = .ok m :=
        (h.unitary_elementary hgates hrealizes).trans hm
      obtain rfl := Except.ok.inj (hu.symm.trans hsame)
      exact hunitary

namespace Circuit

variable {a b : Circuit ℝ} {qs : List ℕ}

theorem exists_isUnitary (ha : ∀ op ∈ a.operations, op.IsConcreteGate) (hqs : qs.Nodup)
    (hcover : a.CoveredBy qs) :
    ∃ u, a.unitary (some (.ofList qs)) = .ok u ∧ u.IsUnitary (2 ^ qs.length) :=
  exists_isUnitary_unitaryIn hqs ha (fun op hop _ hm => (ha op hop).isUnitary hm)
    fun q ⟨op, hop, hq⟩ => hcover op hop q hq

/-- **Circuits of gates have unitary matrices, and concatenation multiplies them.** In a frame of different
qubits that covers two circuits of concrete gates, each of them has a matrix of the size of the frame whose
product with its conjugate transpose is the identity, and the first followed by the second has the product of
the second matrix with the first. -/
theorem unitary_append (ha : ∀ op ∈ a.operations, op.IsConcreteGate)
    (hb : ∀ op ∈ b.operations, op.IsConcreteGate) (hqs : qs.Nodup) (hcover : a.CoveredBy qs)
    (hcover' : b.CoveredBy qs) :
    ∃ u v, a.unitary (some (.ofList qs)) = .ok u ∧ b.unitary (some (.ofList qs)) = .ok v
      ∧ u.HasSize (2 ^ qs.length) ∧ u * u.adjoint = ComplexMatrix.identity (2 ^ qs.length)
      ∧ v.HasSize (2 ^ qs.length) ∧ v * v.adjoint = ComplexMatrix.identity (2 ^ qs.length)
      ∧ (a ++ b).unitary (some (.ofList qs)) = .ok (v * u) := by
  obtain ⟨u, hu, husize, hunitary⟩ := exists_isUnitary ha hqs hcover
  obtain ⟨v, hv, hvsize, hvunitary⟩ := exists_isUnitary hb hqs hcover'
  refine ⟨u, v, hu, hv, husize, hunitary, hvsize, hvunitary, ?_⟩
  exact unitaryIn_append hqs ha hb (fun q ⟨op, hop, hq⟩ => hcover op hop q hq)
    (fun q ⟨op, hop, hq⟩ => hcover' op hop q hq) hu hv

/-- An inverse transform between a rotation and an exchange. -/
noncomputable def framedTransform : Circuit ℝ where
  operations := [.angle .rotateX 9 (.number 1), .fourier [5, 9, 0] true true, .pair .swap 2 7]

theorem unitary_append_framedTransform :
    (∀ op ∈ mixedGates.operations, op.IsConcreteGate)
      ∧ (∀ op ∈ framedTransform.operations, op.IsConcreteGate)
      ∧ ∃ u v, mixedGates.unitary (some (.ofList [9, 7, 0, 5, 2])) = .ok u
        ∧ framedTransform.unitary (some (.ofList [9, 7, 0, 5, 2])) = .ok v
        ∧ u.HasSize 32 ∧ u * u.adjoint = ComplexMatrix.identity 32
        ∧ v.HasSize 32 ∧ v * v.adjoint = ComplexMatrix.identity 32
        ∧ (mixedGates ++ framedTransform).unitary (some (.ofList [9, 7, 0, 5, 2])) = .ok (v * u) := by
  have hmixed : ∀ op ∈ mixedGates.operations, op.IsConcreteGate := by
    simp only [mixedGates, List.forall_mem_cons]
    exact ⟨⟨rfl, rfl, by decide, by decide⟩, ⟨rfl, rfl, by decide, by decide⟩,
      ⟨rfl, rfl, by decide, by decide⟩, ⟨rfl, rfl, by decide, by decide⟩,
      ⟨rfl, rfl, by decide, by decide⟩, fun _ h => absurd h List.not_mem_nil⟩
  have hframed : ∀ op ∈ framedTransform.operations, op.IsConcreteGate := by
    simp only [framedTransform, List.forall_mem_cons]
    exact ⟨⟨rfl, rfl, by decide, by decide⟩, ⟨rfl, rfl, by decide, by decide⟩,
      ⟨rfl, rfl, by decide, by decide⟩, fun _ h => absurd h List.not_mem_nil⟩
  have hcover : mixedGates.CoveredBy [9, 7, 0, 5, 2] := by
    simp only [CoveredBy, mixedGates, List.forall_mem_cons, OperationOf.qubits]
    decide
  have hcover' : framedTransform.CoveredBy [9, 7, 0, 5, 2] := by
    simp only [CoveredBy, framedTransform, List.forall_mem_cons, OperationOf.qubits]
    decide
  exact ⟨hmixed, hframed, unitary_append hmixed hframed (by decide) hcover hcover'⟩

end Circuit

end CircuitIR
