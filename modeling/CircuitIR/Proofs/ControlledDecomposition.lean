import CircuitIR.Proofs.GateAction

/-!
# Decomposition of controlled gates

A bit flip moves amplitudes between the two values of its target where all controls are one, and a phase
multiplies amplitudes where its target is one as well. The recursion makes a phase out of flips with
fewer controls, and a flip out of the phase with the same controls, so that one induction on the controls
gives both.
-/

namespace CircuitIR

open Assignment (value value_lt)
open OperationOf (action_cnot action_controlledPhase action_hadamard action_pauliX
  action_phaseShift action_t hadamard_sign isConcreteGate_angle
  isConcreteGate_controlledPhase isConcreteGate_fixed isConcreteGate_pair)

theorem turn_neg (θ : ℝ) (b : Bool) : turn (-θ) b = (turn θ b)⁻¹ := by
  cases b <;> simp [Complex.exp_neg]

theorem turn_ne_zero (θ : ℝ) (b : Bool) : turn θ b ≠ 0 := by
  cases b <;> simp

theorem turn_half_mul_self (θ : ℝ) (b : Bool) : turn (θ / 2) b * turn (θ / 2) b = turn θ b := by
  cases b
  · simp
  · rw [turn_true, turn_true, ← Complex.exp_add]
    push_cast
    ring_nf

namespace Assignment

variable {qs : List ℕ} {q : ℕ}

theorem all_update_of_notMem (hq : q ∉ qs) (b : Bool) (x : Assignment) :
    qs.all (Function.update x q b) = qs.all x := by
  rw [Bool.eq_iff_iff, List.all_eq_true, List.all_eq_true]
  refine forall₂_congr fun r hr => ?_
  rw [Function.update_of_ne (ne_of_mem_of_not_mem hr hq)]

/-- Qubits have the greatest number where all of them are one. -/
theorem value_add_one_eq_iff (qs : List ℕ) (x : Assignment) :
    value qs x + 1 = 2 ^ qs.length ↔ qs.all x = true := by
  induction qs with
  | nil => simp
  | cons q qs ih =>
      have hlt := value_lt qs x
      rw [value_cons, List.length_cons, List.all_cons, Bool.and_eq_true, ← ih, pow_succ]
      cases x q <;> simp <;> omega

end Assignment

namespace Controlled

/-- The bit flip of a target where all controls are one. -/
def flipWave (controls : List ℕ) (t : ℕ) (ψ : Wave) : Wave := fun x =>
  ψ (Function.update x t (x t ^^ controls.all x))

/-- The phase where a target and all controls are one. -/
noncomputable def phaseWave (controls : List ℕ) (t : ℕ) (φ : ℝ) (ψ : Wave) : Wave := fun x =>
  turn φ (x t && controls.all x) * ψ x

variable {c d t : ℕ}

/-- The gates of a bit flip with two controls between the Hadamard gates on the target. -/
noncomputable def toffoliTarget (c d t : ℕ) : List (Operation ℝ) :=
  [.pair .cnot d t,
    .angle .phaseShift t (.number (-(Real.pi / 4))),
    .pair .cnot c t,
    .fixed .t t,
    .pair .cnot d t,
    .angle .phaseShift t (.number (-(Real.pi / 4))),
    .pair .cnot c t,
    .fixed .t d,
    .fixed .t t]

/-- Its last gates, on the two controls only. -/
noncomputable def toffoliControls (c d : ℕ) : List (Operation ℝ) :=
  [.pair .cnot c d,
    .fixed .t c,
    .angle .phaseShift d (.number (-(Real.pi / 4))),
    .pair .cnot c d]

theorem toffoli_eq (c d t : ℕ) :
    toffoli c d t = .fixed .hadamard t :: toffoliTarget c d t
      ++ .fixed .hadamard t :: toffoliControls c d := by
  have hangle : (minusEighth : Parameter ℝ) = .number (-(Real.pi / 4)) := by
    simp [minusEighth, neg_div]
  rw [toffoli, hangle]
  rfl

theorem evolve_toffoliTarget (hct : c ≠ t) (hdt : d ≠ t) (ψ : Wave) :
    evolve (toffoliTarget c d t) ψ
      = fun x => turn (Real.pi / 4) (x t) * turn (Real.pi / 4) (x d)
        * (turn (Real.pi / 4) (x t ^^ x c))⁻¹ * turn (Real.pi / 4) (x t ^^ x c ^^ x d)
        * (turn (Real.pi / 4) (x t ^^ x d))⁻¹ * ψ x := by
  funext x
  have hcancel : (x t ^^ (x c ^^ (x d ^^ x c))) = (x t ^^ x d) := by
    cases x c <;> cases x d <;> rfl
  have hback : (x t ^^ (x c ^^ (x d ^^ (x c ^^ x d)))) = x t := by
    cases x c <;> cases x d <;> cases x t <;> rfl
  simp only [toffoliTarget, evolve_cons, evolve_nil, action_cnot hct, action_cnot hdt, action_t,
    action_phaseShift, turn_neg, Function.update_self, Function.update_idem,
    Function.update_of_ne hct, Function.update_of_ne hdt, Bool.xor_assoc, hcancel, hback,
    Function.update_eq_self]
  ring

theorem evolve_toffoliControls (hcd : c ≠ d) (ψ : Wave) :
    evolve (toffoliControls c d) ψ
      = fun x => (turn (Real.pi / 4) (x d ^^ x c))⁻¹ * turn (Real.pi / 4) (x c) * ψ x := by
  funext x
  simp only [toffoliControls, evolve_cons, evolve_nil, action_cnot hcd, action_t,
    action_phaseShift, turn_neg, Function.update_self, Function.update_idem,
    Function.update_of_ne hcd, Bool.xor_assoc, Bool.xor_self, Bool.xor_false,
    Function.update_eq_self]
  ring

/-- The phase polynomial of two controls and a target is a sign. -/
theorem toffoli_phase (a b s : Bool) :
    (turn (Real.pi / 4) (b ^^ a))⁻¹ * turn (Real.pi / 4) a
        * (turn (Real.pi / 4) s * turn (Real.pi / 4) b * (turn (Real.pi / 4) (s ^^ a))⁻¹
          * turn (Real.pi / 4) (s ^^ a ^^ b) * (turn (Real.pi / 4) (s ^^ b))⁻¹)
      = if s && (b && a) then -1 else 1 := by
  have hroot : turn (Real.pi / 4) true ^ 4 = -1 := by
    rw [turn_true, ← Complex.exp_nat_mul, ← Complex.exp_pi_mul_I]
    congr 1
    push_cast
    ring
  have hne := turn_ne_zero (Real.pi / 4) true
  have hfalse := turn_false (Real.pi / 4)
  generalize turn (Real.pi / 4) = f at hroot hne hfalse ⊢
  cases a <;> cases b <;> cases s <;> simp [hfalse, hne]
  linear_combination hroot

theorem realizes_toffoli (hcd : c ≠ d) (hct : c ≠ t) (hdt : d ≠ t) :
    Realizes (toffoli c d t) (flipWave [d, c] t) := by
  rw [toffoli_eq]
  refine ⟨?_, fun ψ => ?_⟩
  · simp [toffoliTarget, toffoliControls, isConcreteGate_fixed, isConcreteGate_angle,
      isConcreteGate_pair _ hcd, isConcreteGate_pair _ hct, isConcreteGate_pair _ hdt]
  · rw [List.cons_append, evolve_cons, evolve_append, evolve_cons, evolve_toffoliTarget hct hdt,
      evolve_toffoliControls hcd]
    funext x
    -- the phases of the last gates do not depend on the target, so they go with those before
    refine (hadamard_sign (b := x d && x c) ?_ ?_ ψ).trans ?_
    · simpa [hct, hdt] using toffoli_phase (x c) (x d) false
    · simpa [hct, hdt] using toffoli_phase (x c) (x d) true
    · simp [flipWave]

/-- From the phases with the same controls one gets the flip. -/
theorem realizes_flipBy {phase : ℕ → Parameter ℝ → List (Operation ℝ)} {controls : List ℕ}
    (hdistinct : (t :: controls).Nodup)
    (hphase : ∀ φ : ℝ, Realizes (phase t (.number φ)) (phaseWave controls t φ)) :
    Realizes (flipBy phase controls t) (flipWave controls t) := by
  match controls with
  | [] =>
      refine (Realizes.single (isConcreteGate_fixed .pauliX t)).congr fun ψ => ?_
      rw [action_pauliX]
      funext x
      simp [flipWave]
  | [c] =>
      have hct : c ≠ t := by
        rintro rfl
        simp at hdistinct
      refine (Realizes.single (isConcreteGate_pair .cnot hct)).congr fun ψ => ?_
      rw [action_cnot hct]
      funext x
      simp [flipWave]
  | [d, c] =>
      simp only [List.nodup_cons, List.mem_cons, List.not_mem_nil, or_false, not_or] at hdistinct
      obtain ⟨⟨htd, htc⟩, hdc, -⟩ := hdistinct
      exact realizes_toffoli (Ne.symm hdc) (Ne.symm htc) (Ne.symm htd)
  | a :: b :: c :: controls =>
      have hbasis : Realizes [.fixed .hadamard t] _ := .single (isConcreteGate_fixed .hadamard t)
      refine ((hbasis.append (hphase Real.pi)).append hbasis).congr fun ψ => ?_
      have hcontrols := (List.nodup_cons.1 hdistinct).1
      funext x
      -- the phase is a sign under the condition that all qubits are one
      have hsign := hadamard_sign (k := 1) (q := t) (b := (a :: b :: c :: controls).all x)
        (f := fun y => turn Real.pi (y t && (a :: b :: c :: controls).all y)) (x := x)
        (by simp) (by
          rw [Function.update_self, Assignment.all_update_of_notMem hcontrols]
          cases (a :: b :: c :: controls).all x <;> simp) ψ
      rw [one_mul] at hsign
      exact hsign

/-- The phases of the recursion add up to the phase under all conditions. -/
theorem turn_extend (φ : ℝ) (a x t : Bool) :
    turn (φ / 2) (t && a) * (turn (-(φ / 2)) ((x ^^ a) && t) * turn (φ / 2) (x && t))
      = turn φ (t && (x && a)) := by
  have hne := turn_ne_zero (φ / 2) true
  have hsquare := turn_half_mul_self φ true
  rw [turn_neg]
  cases a <;> cases x <;> cases t <;> simp_all

theorem realizes_extend {phase : ℕ → Parameter ℝ → List (Operation ℝ)} {controls : List ℕ}
    {x : ℕ} {φ : ℝ} (hxt : x ≠ t) (hx : x ∉ controls)
    (hflip : Realizes (flipBy phase controls x) (flipWave controls x))
    (hphase : Realizes (phase t (.number (φ / 2))) (phaseWave controls t (φ / 2))) :
    Realizes (extend phase controls x t (.number (φ / 2))) (phaseWave (x :: controls) t φ) := by
  have hcontrolled : ∀ θ : ℝ, Realizes [.controlledPhase x t (.number θ)]
      fun ψ z => turn θ (z x && z t) * ψ z := fun θ =>
    (Realizes.single (isConcreteGate_controlledPhase hxt θ)).congr (action_controlledPhase x t θ)
  have hgates : extend phase controls x t (.number (φ / 2))
      = [.controlledPhase x t (.number (φ / 2))] ++ flipBy phase controls x
        ++ [.controlledPhase x t (.number (-(φ / 2)))] ++ flipBy phase controls x
        ++ phase t (.number (φ / 2)) := by
    simp [extend, Parameter.neg]
  rw [hgates]
  refine (((((hcontrolled _).append hflip).append (hcontrolled _)).append hflip).append
    hphase).congr fun ψ => ?_
  funext z
  -- the two flips cancel, and the phase between them sees the control exclusive-or the others
  simp only [Function.comp_apply, flipWave, phaseWave, Function.update_self,
    Function.update_of_ne hxt.symm, Function.update_idem, Assignment.all_update_of_notMem hx,
    Bool.xor_assoc, Bool.xor_self, Bool.xor_false, Function.update_eq_self, List.all_cons,
    ← turn_extend φ (controls.all z) (z x) (z t)]
  ring

/-- **A phase with any number of controls**, by induction on the controls. -/
theorem realizes_phase {controls : List ℕ} (hdistinct : (t :: controls).Nodup) (φ : ℝ) :
    Realizes (phase controls t (.number φ)) (phaseWave controls t φ) := by
  induction controls generalizing t φ with
  | nil =>
      refine (Realizes.single (isConcreteGate_angle .phaseShift t φ)).congr fun ψ => ?_
      rw [action_phaseShift]
      funext x
      simp [phaseWave]
  | cons x controls ih =>
      simp only [List.nodup_cons, List.mem_cons, not_or] at hdistinct
      obtain ⟨⟨htx, ht⟩, hx, hcontrols⟩ := hdistinct
      have hxt : x ≠ t := Ne.symm htx
      have hhalf : (Parameter.number φ).half = .number (φ / 2) := by
        simp [Parameter.half]
      cases controls with
      | nil =>
          refine (Realizes.single (isConcreteGate_controlledPhase hxt φ)).congr fun ψ => ?_
          rw [action_controlledPhase]
          funext z
          simp [phaseWave, Bool.and_comm]
      | cons y controls =>
          simp only [phase, hhalf]
          have hdistinct : (x :: y :: controls).Nodup := List.nodup_cons.2 ⟨hx, hcontrols⟩
          exact realizes_extend hxt hx (realizes_flipBy hdistinct (ih hdistinct))
            (ih (List.nodup_cons.2 ⟨ht, hcontrols⟩) _)

/-- **A bit flip with any number of controls.** -/
theorem realizes_flip {controls : List ℕ} (hdistinct : (t :: controls).Nodup) :
    Realizes (flip controls t) (flipWave controls t) :=
  realizes_flipBy hdistinct (realizes_phase hdistinct)

/-! ### Closed forms

The last qubit of a list is the target, and the qubits before it are the controls. -/

variable {qs controls : List ℕ}

theorem eq_append_of_reverse_eq (hqs : qs.reverse = t :: controls) :
    qs = controls.reverse ++ [t] := by
  rw [← List.reverse_reverse qs, hqs, List.reverse_cons]

theorem all_eq (hqs : qs.reverse = t :: controls) (x : Assignment) :
    qs.all x = (x t && controls.all x) := by
  rw [eq_append_of_reverse_eq hqs, List.all_append, List.all_reverse, List.all_cons, List.all_nil,
    Bool.and_true, Bool.and_comm]

/-- The exchange of the last two numbers flips the last bit if all other bits are one. -/
theorem exchange_last {v m : ℕ} {all : Bool} (hv : v < m) (hall : v + 1 = m ↔ all = true)
    (b : Bool) :
    exchange (m * 2 - 2) (m * 2 - 1) (2 * v + b.toNat) = 2 * v + (b ^^ all).toNat := by
  rw [exchange]
  cases all with
  | false =>
      have hne : v + 1 ≠ m := fun h => Bool.false_ne_true (hall.1 h)
      have hlt := Bool.toNat_lt b
      rw [if_neg (by omega), if_neg (by omega), Bool.xor_false]
  | true =>
      obtain rfl := hall.2 rfl
      have heven : (v + 1) * 2 - 2 = 2 * v := by omega
      have hodd : (v + 1) * 2 - 1 = 2 * v + 1 := by omega
      rw [heven, hodd]
      cases b <;> simp

theorem exchange_value (hqs : qs.reverse = t :: controls) (ht : t ∉ controls) (x : Assignment) :
    exchange (2 ^ qs.length - 2) (2 ^ qs.length - 1) (value qs x)
      = value qs (Function.update x t (x t ^^ controls.all x)) := by
  have hnotMem : t ∉ controls.reverse := by rwa [List.mem_reverse]
  have hlast := Assignment.value_add_one_eq_iff controls.reverse x
  rw [List.all_reverse] at hlast
  rw [eq_append_of_reverse_eq hqs, Assignment.value_append_singleton,
    Assignment.value_append_singleton, Assignment.value_update_of_notMem hnotMem,
    Function.update_self, List.length_append, List.length_singleton, pow_succ]
  exact exchange_last (value_lt _ x) hlast (x t)

theorem action_multiControlledNot (hdistinct : (t :: controls).Nodup)
    (hqs : qs.reverse = t :: controls) (ψ : Wave) :
    (.multiControlledNot qs : Operation ℝ).action ψ = flipWave controls t ψ := by
  have hne : qs ≠ [] := by
    rintro rfl
    simp at hqs
  have ht : t ∈ qs := by
    rw [← List.mem_reverse, hqs]
    exact List.mem_cons_self
  funext x
  rw [OperationOf.action_eq_act (OperationOf.unitary_multiControlledNot hne)]
  refine ComplexMatrix.act_rowsAt (exchange_value hqs (List.nodup_cons.1 hdistinct).1 x)
    (fun q hq => ?_) ψ
  exact (Function.update_of_ne (ne_of_mem_of_not_mem ht hq).symm _ _).symm

/-- The diagonal matrix with a phase in its last entry. -/
noncomputable def lastPhase (n : ℕ) (φ : ℝ) : ComplexMatrix ℝ :=
  .diagonal (2 ^ n) fun i => if i + 1 = 2 ^ n then .phase φ else .one

theorem act_lastPhase (hqs : qs.reverse = t :: controls) (φ : ℝ) (ψ : Wave) :
    (lastPhase qs.length φ).act qs ψ = phaseWave controls t φ ψ := by
  funext x
  rw [lastPhase, ComplexMatrix.act_diagonal, phaseWave, ← all_eq hqs]
  simp only [Assignment.value_add_one_eq_iff]
  cases qs.all x <;> simp

theorem hasEntries_multiControlledNot (n : ℕ) :
    (multiControlledNotUnitary n).HasEntries (2 ^ n) fun i j =>
      if Equiv.swap (2 ^ n - 2) (2 ^ n - 1) i = j then 1 else 0 := by
  refine ⟨⟨rfl, rfl⟩, fun i j hi hj => ?_⟩
  rw [multiControlledNotUnitary, ComplexMatrix.entry_rowsAt _ hi hj, Equiv.swap_apply_def, exchange]

theorem hasEntries_lastPhase (n : ℕ) (φ : ℝ) :
    (lastPhase n φ).HasEntries (2 ^ n) fun i j =>
      if i ≠ j then 0 else if i = 2 ^ n - 1 then Complex.exp (φ * Complex.I) else 1 := by
  refine ⟨⟨rfl, rfl⟩, fun i j hi hj => ?_⟩
  have hlast : i + 1 = 2 ^ n ↔ i = 2 ^ n - 1 := by omega
  rw [lastPhase, ComplexMatrix.entry_diagonal _ hi hj]
  simp only [hlast]
  by_cases hij : i = j
  · rw [if_pos hij, if_neg (not_not.2 hij)]
    split <;> simp
  · rw [if_neg hij, if_pos hij]

theorem exists_realizes_flip (hdistinct : qs.Nodup) (hne : qs ≠ []) :
    ∃ gates, multiControlledNot? qs = some gates
      ∧ Realizes gates (.multiControlledNot qs : Operation ℝ).action := by
  obtain ⟨t, controls, hqs⟩ := List.exists_cons_of_ne_nil (List.reverse_ne_nil_iff.2 hne)
  have hnodup : (t :: controls).Nodup := hqs ▸ List.nodup_reverse.2 hdistinct
  refine ⟨flip controls t, by rw [multiControlledNot?, hqs], ?_⟩
  exact (realizes_flip hnodup).congr fun ψ => (action_multiControlledNot hnodup hqs ψ).symm

theorem exists_unitary_phase (hdistinct : qs.Nodup) (hne : qs ≠ []) (φ : ℝ) :
    ∃ gates, multiControlledPhase? qs (.number φ) = some gates
      ∧ (⟨gates⟩ : Circuit ℝ).unitary (some (.ofList qs)) = .ok (lastPhase qs.length φ) := by
  obtain ⟨t, controls, hqs⟩ := List.exists_cons_of_ne_nil (List.reverse_ne_nil_iff.2 hne)
  have hnodup : (t :: controls).Nodup := hqs ▸ List.nodup_reverse.2 hdistinct
  refine ⟨phase controls t (.number φ), by rw [multiControlledPhase?, hqs], ?_⟩
  refine (realizes_phase hnodup φ).unitaryIn_eq_ok hdistinct (fun q hq => ?_) ⟨rfl, rfl⟩
    (act_lastPhase hqs φ)
  rwa [touches_phase, ← hqs, List.mem_reverse] at hq

/-- **Controlled gates without further qubits are exact.** On any number of different qubits the
elementary gates of a controlled bit flip have the matrix that exchanges the last two basis states, and
those of a controlled phase have the diagonal matrix with the phase in its last entry. There is no
global phase, and all gates are on one or two qubits. -/
theorem flip_phase_unitary (hdistinct : qs.Nodup) (hne : qs ≠ []) :
    (∃ gates m, multiControlledNot? qs = some gates ∧ Elementary gates
      ∧ (⟨gates⟩ : Circuit ℝ).unitary (some (.ofList qs)) = .ok m
      ∧ (.multiControlledNot qs : Operation ℝ).unitary = .ok m
      ∧ m.HasEntries (2 ^ qs.length) fun i j =>
        if Equiv.swap (2 ^ qs.length - 2) (2 ^ qs.length - 1) i = j then 1 else 0)
    ∧ ∀ φ : ℝ, ∃ gates m, multiControlledPhase? qs (.number φ) = some gates ∧ Elementary gates
      ∧ (⟨gates⟩ : Circuit ℝ).unitary (some (.ofList qs)) = .ok m
      ∧ m.HasEntries (2 ^ qs.length) fun i j =>
        if i ≠ j then 0 else if i = 2 ^ qs.length - 1 then Complex.exp (φ * Complex.I) else 1 := by
  have hgate : (.multiControlledNot qs : Operation ℝ).IsConcreteGate :=
    ⟨rfl, rfl, hdistinct, hne⟩
  constructor
  · obtain ⟨gates, hgates, hrealizes⟩ := exists_realizes_flip hdistinct hne
    have hunitary := OperationOf.unitary_multiControlledNot hne
    refine ⟨gates, _, hgates, elementary_multiControlledNot hgates, ?_, hunitary,
      hasEntries_multiControlledNot _⟩
    rw [← hunitary]
    exact hgate.unitary_elementary hgates hrealizes
  · intro φ
    obtain ⟨gates, hgates, hunitary⟩ := exists_unitary_phase hdistinct hne φ
    exact ⟨gates, _, hgates, elementary_multiControlledPhase hgates, hunitary,
      hasEntries_lastPhase _ φ⟩

/-- Four qubits out of order: the bit flip is a phase between Hadamard gates. -/
theorem flip_phase_unitary_four_qubits :
    [5, 0, 3, 2].Nodup ∧ [5, 0, 3, 2] ≠ []
    ∧ (∃ gates m, multiControlledNot? [5, 0, 3, 2] = some gates ∧ Elementary gates
      ∧ (⟨gates⟩ : Circuit ℝ).unitary (some (.ofList [5, 0, 3, 2])) = .ok m
      ∧ (.multiControlledNot [5, 0, 3, 2] : Operation ℝ).unitary = .ok m
      ∧ m.entry 14 15 = 1 ∧ m.entry 14 14 = 0 ∧ m.entry 13 13 = 1)
    ∧ ∃ gates m, multiControlledPhase? [5, 0, 3, 2] (.number 1) = some gates ∧ Elementary gates
      ∧ (⟨gates⟩ : Circuit ℝ).unitary (some (.ofList [5, 0, 3, 2])) = .ok m
      ∧ m.entry 15 15 = Complex.exp Complex.I ∧ m.entry 14 14 = 1 := by
  have hnodup : [5, 0, 3, 2].Nodup := by decide
  have hne : [5, 0, 3, 2] ≠ [] := by decide
  obtain ⟨⟨flip, m, hflip, hsmall, hm, hclosed, hentries⟩, hphases⟩ :=
    flip_phase_unitary hnodup hne
  obtain ⟨phase, m', hphase, hsmall', hm', hentries'⟩ := hphases 1
  refine ⟨hnodup, hne, ⟨flip, m, hflip, hsmall, hm, hclosed, ?_, ?_, ?_⟩,
    phase, m', hphase, hsmall', hm', ?_, ?_⟩
  · rw [hentries.entry 14 15 (by decide) (by decide), if_pos (by decide)]
  · rw [hentries.entry 14 14 (by decide) (by decide), if_neg (by decide)]
  · rw [hentries.entry 13 13 (by decide) (by decide), if_pos (by decide)]
  · rw [hentries'.entry 15 15 (by decide) (by decide)]
    simp
  · rw [hentries'.entry 14 14 (by decide) (by decide)]
    simp

end Controlled

end CircuitIR
