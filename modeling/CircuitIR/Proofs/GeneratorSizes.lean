import CircuitIR.Proofs.BuiltGates
import CircuitIR.Proofs.EmittedGates

/-!
# Sizes of the generators of controlled gates

A bit flip with many controls consists of a phase on the same qubits, and the phase of two flips and a phase
on one qubit less. The numbers of gates that follow from this are given in closed form. They depend on the
number of qubits only, and on different qubits all of these gates are built.
-/

namespace CircuitIR

namespace Controlled

/-- The number of gates of a bit flip on a number of qubits. -/
def flipSize : ℕ → ℕ
  | 0 => 0
  | 1 => 1
  | 2 => 1
  | 3 => 15
  | n + 4 => 40 * 3 ^ n - 1

/-- The number of gates of a phase on a number of qubits. -/
def phaseSize : ℕ → ℕ
  | 0 => 0
  | 1 => 1
  | 2 => 1
  | 3 => 5
  | n + 4 => 40 * 3 ^ n - 3

/-- From four qubits on a flip is a phase between two gates. -/
theorem flipSize_eq (n : ℕ) : flipSize (n + 4) = phaseSize (n + 4) + 2 := by
  have hpos : 1 ≤ 3 ^ n := Nat.one_le_pow n 3 (by decide)
  rw [flipSize, phaseSize]
  omega

/-- A phase is two flips, a phase on one qubit less, and two gates between them. -/
theorem phaseSize_eq (n : ℕ) :
    phaseSize (n + 3) = 2 * flipSize (n + 2) + phaseSize (n + 2) + 2 := by
  match n with
  | 0 => rfl
  | 1 => rfl
  | n + 2 =>
      have hpos : 1 ≤ 3 ^ n := Nat.one_le_pow n 3 (by decide)
      change 40 * 3 ^ (n + 1) - 3 = 2 * (40 * 3 ^ n - 1) + (40 * 3 ^ n - 3) + 2
      rw [pow_succ]
      omega

variable {I R : Type} [Scalar R]

theorem length_flipBy {phase : I → Parameter R → List (OperationOf I (Parameter R))}
    {controls : List I} {t : I} (h : ∀ φ, (phase t φ).length = phaseSize (controls.length + 1)) :
    (flipBy phase controls t).length = flipSize (controls.length + 1) := by
  match controls with
  | [] => rfl
  | [c] => rfl
  | [d, c] => rfl
  | a :: b :: c :: controls =>
      simp only [flipBy, List.length_append, List.length_cons, List.length_nil, h]
      exact (flipSize_eq controls.length).symm

/-- The size of a phase, by induction on its controls. -/
theorem length_phase (controls : List I) (t : I) (φ : Parameter R) :
    (phase controls t φ).length = phaseSize (controls.length + 1) := by
  induction controls generalizing t φ with
  | nil => rfl
  | cons x controls ih =>
      cases controls with
      | nil => rfl
      | cons y controls =>
          have hflip : (flipBy (phase (y :: controls)) (y :: controls) x).length
              = flipSize (controls.length + 2) := length_flipBy (ih x)
          have hrest : (phase (y :: controls) t φ.half).length = phaseSize (controls.length + 2) :=
            ih t φ.half
          simp only [phase, extend, List.length_append, List.length_cons, hflip, hrest]
          refine Eq.trans ?_ (phaseSize_eq controls.length).symm
          omega

theorem length_flip (controls : List I) (t : I) :
    (flip controls t : List (OperationOf I (Parameter R))).length = flipSize (controls.length + 1) :=
  length_flipBy (length_phase controls t)

variable {qs : List ℕ}

/-- **The generators of controlled gates return, with exact sizes.** On any number of different qubits, but at
least one, a bit flip and a phase by any number are built from the gates of their generators. A flip has 1, 1
and 15 gates on up to three qubits and `40 * 3 ^ (n - 4) - 1` on `n` qubits from four on, a phase 1, 1 and 5
gates and then `40 * 3 ^ (n - 4) - 3`. -/
theorem generators_size (hdistinct : qs.Nodup) (hne : qs ≠ []) :
    (∃ gates, controlledFlipOf ((Datum.ofNats qs).map Datum.toQubit) = .ok gates
      ∧ multiControlledNot? qs = some gates ∧ gates.length = flipSize qs.length)
    ∧ ∀ x : Float, ∃ gates, (controlledPhaseOf (Datum.ofNats qs) (.real x)).result = .ok gates
      ∧ multiControlledPhase? qs (.number x) = some gates ∧ gates.length = phaseSize qs.length := by
  obtain ⟨t, controls, hqs⟩ := List.exists_cons_of_ne_nil (List.reverse_ne_nil_iff.2 hne)
  have hnodup : (t :: controls).Nodup := hqs ▸ List.nodup_reverse.2 hdistinct
  have hlength : qs.length = controls.length + 1 := by
    rw [← List.length_reverse, hqs, List.length_cons]
  constructor
  · exact ⟨flip controls t, controlledFlipOf_nats hqs hnodup, by rw [multiControlledNot?, hqs],
      hlength ▸ length_flip controls t⟩
  · exact fun x => ⟨phase controls t (.number x), controlledPhaseOf_nats hqs hnodup x,
      by rw [multiControlledPhase?, hqs], hlength ▸ length_phase controls t _⟩

/-- Five qubits out of order. -/
theorem generators_size_five_qubits :
    [7, 2, 0, 9, 4].Nodup ∧ [7, 2, 0, 9, 4] ≠ []
    ∧ (∃ gates, controlledFlipOf ((Datum.ofNats [7, 2, 0, 9, 4]).map Datum.toQubit) = .ok gates
      ∧ multiControlledNot? [7, 2, 0, 9, 4] = some gates ∧ gates.length = 119)
    ∧ ∃ gates, (controlledPhaseOf (Datum.ofNats [7, 2, 0, 9, 4]) (.real 0.5)).result = .ok gates
      ∧ multiControlledPhase? [7, 2, 0, 9, 4] (.number 0.5) = some gates ∧ gates.length = 117 := by
  have hdistinct : [7, 2, 0, 9, 4].Nodup := by decide
  have hne : [7, 2, 0, 9, 4] ≠ [] := by decide
  obtain ⟨hflip, hphase⟩ := generators_size hdistinct hne
  exact ⟨hdistinct, hne, hflip, hphase 0.5⟩

end Controlled

end CircuitIR
