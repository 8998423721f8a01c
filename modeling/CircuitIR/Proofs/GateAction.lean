import CircuitIR.Proofs.Evolution
import Mathlib.Tactic.FieldSimp
import Mathlib.Tactic.LinearCombination

/-!
# Actions of elementary gates

What the gates on one and two qubits do to waves, in terms of the values of their qubits. Diagonal gates
multiply amplitudes, gates that permute basis states move them, and a Hadamard gate mixes the two
assignments that differ in its qubit. Decompositions are computed with these equations alone.
-/

namespace CircuitIR

open Assignment (update_of_eq value write value_lt write_value_eq)

/-- The phase `exp (i θ)` if a condition holds. -/
noncomputable def turn (θ : ℝ) (b : Bool) : ℂ := if b then Complex.exp (θ * Complex.I) else 1

@[simp]
theorem turn_false (θ : ℝ) : turn θ false = 1 := rfl

@[simp]
theorem turn_true (θ : ℝ) : turn θ true = Complex.exp (θ * Complex.I) := rfl

/-- The phase of a rotation by `θ` around the z-axis. -/
noncomputable def halfTurn (θ : ℝ) (b : Bool) : ℂ :=
  Complex.exp (((if b then Scalar.half θ else -Scalar.half θ : ℝ) : ℂ) * Complex.I)

namespace ComplexMatrix

variable {qs : List ℕ} {x y : Assignment}

theorem act_rowsAt {f : ℕ → ℕ} (hvalue : f (value qs x) = value qs y)
    (hout : ∀ q ∉ qs, x q = y q) (ψ : Wave) : act (rowsAt (2 ^ qs.length) f) qs ψ x = ψ y := by
  rw [rowsAt, act_square, hvalue, Finset.sum_eq_single (value qs y)]
  · rw [write_value_eq hout]
    simp
  · intro j _ hj
    simp [Ne.symm hj]
  · intro hnot
    exact absurd (Finset.mem_range.2 (value_lt qs y)) hnot

theorem act_twoByTwo (a b c d : Amplitude ℝ) (q : ℕ) (ψ : Wave) (x : Assignment) :
    act (twoByTwo a b c d) [q] ψ x
      = (if x q then c else a).toComplex * ψ (Function.update x q false)
        + (if x q then d else b).toComplex * ψ (Function.update x q true) := by
  rw [twoByTwo, show 2 = 2 ^ [q].length from rfl, act_square]
  cases hq : x q <;> simp [Finset.sum_range_succ, hq, Assignment.write_cons]

theorem act_twoByTwo_diagonal (a d : Amplitude ℝ) (q : ℕ) (ψ : Wave) (x : Assignment) :
    act (twoByTwo a .zero .zero d) [q] ψ x = (if x q then d else a).toComplex * ψ x := by
  rw [act_twoByTwo]
  cases hq : x q <;> simp [update_of_eq hq]

end ComplexMatrix

namespace OperationOf

open ComplexMatrix

variable {q c t : ℕ}

theorem isConcreteGate_fixed (g : FixedGate) (q : ℕ) :
    (fixed g q : Operation ℝ).IsConcreteGate :=
  ⟨rfl, rfl, List.nodup_singleton q, List.cons_ne_nil _ _⟩

theorem isConcreteGate_angle (g : AngleGate) (q : ℕ) (θ : ℝ) :
    (angle g q (.number θ) : Operation ℝ).IsConcreteGate :=
  ⟨rfl, rfl, List.nodup_singleton q, List.cons_ne_nil _ _⟩

theorem isConcreteGate_pair (g : PairGate) (h : c ≠ t) :
    (pair g c t : Operation ℝ).IsConcreteGate :=
  ⟨rfl, rfl, by simpa [qubits] using h, List.cons_ne_nil _ _⟩

theorem isConcreteGate_controlledPhase (h : c ≠ t) (θ : ℝ) :
    (controlledPhase c t (.number θ) : Operation ℝ).IsConcreteGate :=
  ⟨rfl, rfl, by simpa [qubits] using h, List.cons_ne_nil _ _⟩

theorem action_hadamard (q : ℕ) (ψ : Wave) :
    (fixed .hadamard q : Operation ℝ).action ψ = fun x =>
      ((√2 : ℝ) : ℂ)⁻¹ * (ψ (Function.update x q false)
        + (if x q then -1 else 1) * ψ (Function.update x q true)) := by
  funext x
  change act FixedGate.hadamard.unitary [q] ψ x = _
  rw [FixedGate.unitary, act_twoByTwo]
  cases x q <;> simp <;> ring

theorem action_pauliX (q : ℕ) (ψ : Wave) :
    (fixed .pauliX q : Operation ℝ).action ψ = fun x => ψ (Function.update x q (!x q)) := by
  funext x
  change act FixedGate.pauliX.unitary [q] ψ x = _
  rw [FixedGate.unitary, act_twoByTwo]
  cases x q <;> simp

theorem action_t (q : ℕ) (ψ : Wave) :
    (fixed .t q : Operation ℝ).action ψ = fun x => turn (Real.pi / 4) (x q) * ψ x := by
  funext x
  change act FixedGate.t.unitary [q] ψ x = _
  rw [FixedGate.unitary, act_twoByTwo_diagonal]
  cases x q <;> simp

theorem action_phaseShift (q : ℕ) (θ : ℝ) (ψ : Wave) :
    (angle .phaseShift q (.number θ) : Operation ℝ).action ψ = fun x => turn θ (x q) * ψ x := by
  funext x
  change act (AngleGate.phaseShift.unitary θ) [q] ψ x = _
  rw [AngleGate.unitary, act_twoByTwo_diagonal]
  cases x q <;> simp

theorem action_rotateZ (q : ℕ) (θ : ℝ) (ψ : Wave) :
    (angle .rotateZ q (.number θ) : Operation ℝ).action ψ = fun x => halfTurn θ (x q) * ψ x := by
  funext x
  change act (AngleGate.rotateZ.unitary θ) [q] ψ x = _
  rw [AngleGate.unitary, act_twoByTwo_diagonal]
  cases x q <;> simp [halfTurn]

theorem action_cnot (h : c ≠ t) (ψ : Wave) :
    (pair .cnot c t : Operation ℝ).action ψ = fun x =>
      ψ (Function.update x t (x t ^^ x c)) := by
  funext x
  change act (rowsAt (2 ^ [c, t].length) (exchange 2 3)) [c, t] ψ x = _
  refine act_rowsAt ?_ (fun q hq => ?_) ψ
  · cases hc : x c <;> cases ht : x t <;> simp [Assignment.value_cons, exchange, h, hc, ht]
  · rw [Function.update_of_ne fun heq => hq (by simp [heq])]

theorem action_swap (h : c ≠ t) (ψ : Wave) :
    (pair .swap c t : Operation ℝ).action ψ = fun x =>
      ψ (Function.update (Function.update x c (x t)) t (x c)) := by
  funext x
  change act (rowsAt (2 ^ [c, t].length) (exchange 1 2)) [c, t] ψ x = _
  refine act_rowsAt ?_ (fun q hq => ?_) ψ
  · cases hc : x c <;> cases ht : x t <;> simp [Assignment.value_cons, exchange, h, hc, ht]
  · rw [Function.update_of_ne fun heq => hq (by simp [heq]),
      Function.update_of_ne fun heq => hq (by simp [heq])]

theorem action_controlledPhase (c t : ℕ) (θ : ℝ) (ψ : Wave) :
    (controlledPhase c t (.number θ) : Operation ℝ).action ψ = fun x =>
      turn θ (x c && x t) * ψ x := by
  funext x
  change act (diagonal (2 ^ [c, t].length) fun i => if i = 3 then .phase θ else .one) [c, t] ψ x = _
  rw [act_diagonal]
  cases hc : x c <;> cases ht : x t <;> simp [Assignment.value_cons, hc, ht]

/-- Between two Hadamard gates a multiplication keeps or flips their qubit, with the mean and half the
difference of its values as amplitudes. -/
theorem hadamard_conj (f : Assignment → ℂ) (q : ℕ) (ψ : Wave) (x : Assignment) :
    (fixed .hadamard q : Operation ℝ).action
        (fun y => f y * (fixed .hadamard q : Operation ℝ).action ψ y) x
      = (f (Function.update x q false) + f (Function.update x q true)) / 2 * ψ x
        + (f (Function.update x q false) - f (Function.update x q true)) / 2
          * ψ (Function.update x q (!x q)) := by
  have hroot : ((√2 : ℝ) : ℂ)⁻¹ * ((√2 : ℝ) : ℂ)⁻¹ = 1 / 2 := by
    rw [← mul_inv, ← Complex.ofReal_mul, Real.mul_self_sqrt (by norm_num)]
    norm_num
  simp only [action_hadamard, Function.update_idem, Function.update_self]
  cases hq : x q
  · simp only [update_of_eq hq, Bool.false_eq_true, if_false, if_true, Bool.not_false]
    linear_combination (f x * (ψ x + ψ (Function.update x q true))
      + f (Function.update x q true) * (ψ x - ψ (Function.update x q true))) * hroot
  · simp only [update_of_eq hq, Bool.false_eq_true, if_false, if_true, Bool.not_true]
    linear_combination (f (Function.update x q false) * (ψ (Function.update x q false) + ψ x)
      - f x * (ψ (Function.update x q false) - ψ x)) * hroot

/-- Between two Hadamard gates a sign under a condition flips their qubit under this condition. -/
theorem hadamard_sign {f : Assignment → ℂ} {k : ℂ} {b : Bool} {x : Assignment}
    (hzero : k * f (Function.update x q false) = 1)
    (hone : k * f (Function.update x q true) = if b then -1 else 1) (ψ : Wave) :
    k * (fixed .hadamard q : Operation ℝ).action
        (fun y => f y * (fixed .hadamard q : Operation ℝ).action ψ y) x
      = ψ (Function.update x q (x q ^^ b)) := by
  rw [hadamard_conj]
  cases b with
  | false =>
      rw [Bool.xor_false, Function.update_eq_self]
      rw [if_neg Bool.false_ne_true] at hone
      linear_combination (ψ x + ψ (Function.update x q (!x q))) / 2 * hzero
        + (ψ x - ψ (Function.update x q (!x q))) / 2 * hone
  | true =>
      rw [Bool.xor_true]
      rw [if_pos rfl] at hone
      linear_combination (ψ x + ψ (Function.update x q (!x q))) / 2 * hzero
        + (ψ x - ψ (Function.update x q (!x q))) / 2 * hone

end OperationOf

end CircuitIR
