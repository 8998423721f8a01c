import CircuitIR.Proofs.GateAction
import CircuitIR.Proofs.TouchedQubits
import Mathlib.Analysis.SpecialFunctions.Trigonometric.Basic

/-!
# Decomposition of interactions

A ladder of controlled bit flips collects the parity of its qubits on the last one, and its mirror image
takes it back. Around a rotation of the last qubit the two leave a phase that depends on the parity
alone. Hadamard gates on all qubits turn a function of the parity into a sum of the identity and the
flip of all qubits, which is the change from one interaction to the other.
-/

namespace CircuitIR

open Assignment (value write value_lt write_value_eq)
open OperationOf (action_cnot action_hadamard action_pauliX hadamard_conj)

namespace Assignment

variable {qs rs : List ℕ} {q : ℕ}

/-- An odd number of some qubits is one. -/
def parity (qs : List ℕ) (x : Assignment) : Bool := qs.foldr (fun q b => x q ^^ b) false

@[simp]
theorem parity_nil (x : Assignment) : parity [] x = false := rfl

@[simp]
theorem parity_cons (q : ℕ) (qs : List ℕ) (x : Assignment) :
    parity (q :: qs) x = (x q ^^ parity qs x) := rfl

theorem parity_update_of_notMem (hq : q ∉ qs) (b : Bool) (x : Assignment) :
    parity qs (Function.update x q b) = parity qs x := by
  induction qs with
  | nil => rfl
  | cons r qs ih =>
      rw [List.mem_cons, not_or] at hq
      rw [parity_cons, parity_cons, ih hq.2, Function.update_of_ne (Ne.symm hq.1)]

theorem weight_value_cons (q : ℕ) (qs : List ℕ) (x : Assignment) :
    Bits.weight (q :: qs).length (value (q :: qs) x)
      = Bits.weight qs.length (value qs x) + (x q).toNat := by
  have hlow : ∀ i ∈ List.range qs.length,
      ((value (q :: qs) x).testBit i = true ↔ (value qs x).testBit i = true) := by
    intro i hi
    rw [value_cons, Nat.mul_comm, Nat.testBit_two_pow_mul_add _ (value_lt qs x),
      if_pos (List.mem_range.1 hi)]
  rw [Bits.weight, List.length_cons, List.range_succ, List.countP_append, List.countP_singleton,
    testBit_value_cons, List.countP_congr hlow, Bits.weight]
  cases x q <;> rfl

/-- The parity of qubits is that of the number of ones in their number. -/
theorem weight_value_mod_two (qs : List ℕ) (x : Assignment) :
    Bits.weight qs.length (value qs x) % 2 = (parity qs x).toNat := by
  induction qs with
  | nil => rfl
  | cons q qs ih =>
      rw [weight_value_cons, Nat.add_mod, ih, parity_cons]
      cases x q <;> cases parity qs x <;> rfl

/-- The assignment with some qubits flipped. -/
def flip (qs : List ℕ) (x : Assignment) : Assignment := fun q => if q ∈ qs then !x q else x q

@[simp]
theorem flip_nil (x : Assignment) : flip [] x = x := by
  funext q
  simp [flip]

theorem flip_cons (hq : q ∉ qs) (x : Assignment) :
    flip (q :: qs) x = Function.update (flip qs x) q (!flip qs x q) := by
  funext r
  by_cases hr : r = q
  · subst hr
    simp [flip, hq]
  · simp [flip, hr]

/-- Complementary bits make complementary numbers. -/
theorem value_add_value_flip (hsub : ∀ q ∈ qs, q ∈ rs) (x : Assignment) :
    value qs x + value qs (flip rs x) + 1 = 2 ^ qs.length := by
  induction qs with
  | nil => rfl
  | cons q qs ih =>
      have htail := ih fun r hr => hsub r (List.mem_cons_of_mem _ hr)
      have hq : flip rs x q = !x q := if_pos (hsub q List.mem_cons_self)
      rw [value_cons, value_cons, hq, List.length_cons, pow_succ]
      cases x q <;> simp <;> omega

end Assignment

namespace Interaction

variable {qs : List ℕ} {θ : ℝ}

/-- **The ladder.** A rotation of the last qubit inside a ladder depends on the parity of all qubits. -/
theorem realizes_zz (hqs : qs.Nodup) (hne : qs ≠ []) (θ : ℝ) :
    Realizes (Interaction.zz.gates qs (.number θ))
      (fun ψ x => halfTurn θ (Assignment.parity qs x) * ψ x) := by
  induction qs with
  | nil => exact absurd rfl hne
  | cons a qs ih =>
      cases qs with
      | nil =>
          refine (Realizes.single (OperationOf.isConcreteGate_angle .rotateZ a θ)).congr fun ψ => ?_
          rw [OperationOf.action_rotateZ]
          simp
      | cons b qs =>
          rw [List.nodup_cons, List.mem_cons, not_or] at hqs
          obtain ⟨⟨hab, -⟩, hrest⟩ := hqs
          have hb : b ∉ qs := (List.nodup_cons.1 hrest).1
          have hflip := Realizes.single (OperationOf.isConcreteGate_pair .cnot hab)
          have hlist : Interaction.zz.gates (a :: b :: qs) (.number θ)
              = [.pair .cnot a b] ++ Interaction.zz.gates (b :: qs) (.number θ)
                ++ [.pair .cnot a b] := by
            simp [Interaction.gates, cnotLadder]
          rw [hlist]
          refine ((hflip.append (ih hrest (List.cons_ne_nil b qs))).append hflip).congr fun ψ => ?_
          funext x
          simp only [Function.comp_apply, action_cnot hab, Assignment.parity_cons,
            Assignment.parity_update_of_notMem hb, Function.update_self, Function.update_idem,
            Function.update_of_ne hab, Bool.xor_assoc, Bool.xor_self, Bool.xor_false,
            Function.update_eq_self]
          rw [Bool.xor_left_comm]

/-- Hadamard gates on all qubits of a list. -/
def hadamards (qs : List ℕ) : List (Operation ℝ) := qs.map fun q => .fixed .hadamard q

theorem evolve_hadamards_comm {q : ℕ} (hq : q ∉ qs) (g : FixedGate) (ψ : Wave) :
    evolve (hadamards qs) ((.fixed g q : Operation ℝ).action ψ)
      = (.fixed g q : Operation ℝ).action (evolve (hadamards qs) ψ) := by
  refine evolve_action_comm (fun r hr => ?_) ψ
  obtain ⟨op, hop, hr⟩ := hr
  obtain ⟨s, hs, rfl⟩ := List.mem_map.1 hop
  rw [OperationOf.qubits, List.mem_singleton] at hr ⊢
  exact hr ▸ ne_of_mem_of_not_mem hs hq

/-- **Change of basis.** Between Hadamard gates on all qubits a function of their parity becomes a sum
of the identity and the flip of all qubits. -/
theorem evolve_hadamards_conj (hqs : qs.Nodup) (g : Bool → ℂ) (ψ : Wave) (x : Assignment) :
    evolve (hadamards qs)
        (fun y => g (Assignment.parity qs y) * evolve (hadamards qs) ψ y) x
      = (g false + g true) / 2 * ψ x + (g false - g true) / 2 * ψ (Assignment.flip qs x) := by
  induction qs generalizing g ψ x with
  | nil =>
      simp only [hadamards, List.map_nil, evolve_nil, Assignment.parity_nil, Assignment.flip_nil]
      ring
  | cons q qs ih =>
      rw [List.nodup_cons] at hqs
      obtain ⟨hq, hqs⟩ := hqs
      set φ := evolve (hadamards qs) ψ with hφ
      have hinner : evolve (hadamards (q :: qs)) ψ
          = (.fixed .hadamard q : Operation ℝ).action φ :=
        evolve_hadamards_comm hq .hadamard ψ
      have hflipped : (fun y => φ (Function.update y q (!y q)))
          = evolve (hadamards qs) ((.fixed .pauliX q : Operation ℝ).action ψ) := by
        rw [evolve_hadamards_comm hq, action_pauliX]
      -- the Hadamard gates on `q` leave a sum and a difference of the two values of `g`
      have hmix : (.fixed .hadamard q : Operation ℝ).action (fun y =>
            g (Assignment.parity (q :: qs) y) * (.fixed .hadamard q : Operation ℝ).action φ y)
          = fun y =>
            (g (Assignment.parity qs y) + g (!Assignment.parity qs y)) / 2 * φ y
              + (g (Assignment.parity qs y) - g (!Assignment.parity qs y)) / 2
                * evolve (hadamards qs) ((.fixed .pauliX q : Operation ℝ).action ψ) y := by
        funext y
        rw [hadamard_conj, ← hflipped]
        simp [Assignment.parity_update_of_notMem hq]
      rw [hinner]
      change evolve (hadamards qs) ((.fixed .hadamard q : Operation ℝ).action _) x = _
      rw [hmix, evolve_add, hφ]
      change evolve (hadamards qs) _ x + evolve (hadamards qs) _ x = _
      rw [ih hqs (fun b => (g b + g (!b)) / 2), ih hqs (fun b => (g b - g (!b)) / 2),
        action_pauliX, Assignment.flip_cons hq]
      simp only [Bool.not_false, Bool.not_true]
      ring

theorem action_zz (hne : qs ≠ []) (θ : ℝ) (ψ : Wave) :
    (.interaction .zz qs (.number θ) : Operation ℝ).action ψ = fun x =>
      halfTurn θ (Assignment.parity qs x) * ψ x := by
  funext x
  rw [OperationOf.action_eq_act (OperationOf.unitary_interaction .zz hne θ)]
  change ComplexMatrix.act (ComplexMatrix.diagonal (2 ^ qs.length) _) qs ψ x = _
  rw [ComplexMatrix.act_diagonal, Assignment.weight_value_mod_two]
  cases Assignment.parity qs x <;> simp [halfTurn]

/-- The closed form of an interaction in the Hadamard basis. -/
theorem action_ms (hne : qs ≠ []) (θ : ℝ) (ψ : Wave) :
    (.interaction .ms qs (.number θ) : Operation ℝ).action ψ = fun x =>
      Complex.cos (θ / 2) * ψ x
        - Complex.I * Complex.sin (θ / 2) * ψ (Assignment.flip qs x) := by
  funext x
  rw [OperationOf.action_eq_act (OperationOf.unitary_interaction .ms hne θ)]
  change ComplexMatrix.act (.square (2 ^ qs.length) _) qs ψ x = _
  have hflip : value qs x + value qs (Assignment.flip qs x) + 1 = 2 ^ qs.length :=
    Assignment.value_add_value_flip (fun _ hq => hq) x
  have hout : ∀ q ∉ qs, x q = Assignment.flip qs x q := fun q hq => (if_neg hq).symm
  have hdelta : ∀ j ∈ Finset.range (2 ^ qs.length),
      (value qs x = 2 ^ qs.length - 1 - j ↔ value qs (Assignment.flip qs x) = j) := by
    intro j hj
    rw [Finset.mem_range] at hj
    constructor <;> intro h <;> omega
  calc ComplexMatrix.act (.square (2 ^ qs.length) _) qs ψ x
      = ∑ j ∈ Finset.range (2 ^ qs.length),
          ((if value qs x = j then Complex.cos (θ / 2) * ψ (write qs j x) else 0)
            - if value qs (Assignment.flip qs x) = j then
                Complex.I * Complex.sin (θ / 2) * ψ (write qs j x) else 0) := by
        rw [ComplexMatrix.act_square]
        refine Finset.sum_congr rfl fun j hj => ?_
        simp only [Amplitude.toComplex_sub, Amplitude.toComplex_mul, ComplexMatrix.toComplex_delta,
          hdelta j hj, sub_mul, mul_assoc, ite_mul, one_mul, zero_mul]
        simp
    _ = Complex.cos (θ / 2) * ψ x
          - Complex.I * Complex.sin (θ / 2) * ψ (Assignment.flip qs x) := by
        rw [Finset.sum_sub_distrib, Finset.sum_ite_eq, Finset.sum_ite_eq,
          if_pos (Finset.mem_range.2 (value_lt qs x)),
          if_pos (Finset.mem_range.2 (value_lt qs _)), write_value_eq hout,
          write_value_eq fun _ _ => rfl]

theorem realizes_hadamards (qs : List ℕ) : Realizes (hadamards qs) (evolve (hadamards qs)) where
  isConcrete op hop := by
    obtain ⟨q, -, rfl⟩ := List.mem_map.1 hop
    exact OperationOf.isConcreteGate_fixed .hadamard q
  evolve_eq _ := rfl

theorem realizes_gates (g : Interaction) (hqs : qs.Nodup) (hne : qs ≠ []) (θ : ℝ) :
    Realizes (g.gates qs (.number θ))
      (.interaction g qs (.number θ) : Operation ℝ).action := by
  have hcore := realizes_zz hqs hne θ
  cases g with
  | zz => exact hcore.congr fun ψ => (action_zz hne θ ψ).symm
  | ms =>
      have hbasis := realizes_hadamards qs
      refine ((hbasis.append hcore).append hbasis).congr fun ψ => ?_
      funext x
      have hmean : (halfTurn θ false + halfTurn θ true) / 2 = Complex.cos (θ / 2) := by
        simp [halfTurn, Complex.cos, add_comm]
      have hdifference : (halfTurn θ false - halfTurn θ true) / 2
          = -(Complex.I * Complex.sin (θ / 2)) := by
        simp only [halfTurn, Complex.sin, Bool.false_eq_true, if_false, if_true, Scalar.half_real,
          Complex.ofReal_neg, Complex.ofReal_div, Complex.ofReal_ofNat, neg_mul]
        linear_combination ((Complex.exp (-(θ / 2 * Complex.I))
          - Complex.exp (θ / 2 * Complex.I)) / 2) * Complex.I_mul_I
      rw [action_ms hne, Function.comp_apply, Function.comp_apply,
        evolve_hadamards_conj hqs (halfTurn θ), hmean, hdifference]
      ring

/-- An interaction decomposes into gates that have its closed form as their matrix. -/
theorem exists_decomposition (g : Interaction) (hqs : qs.Nodup) (hne : qs ≠ []) (θ : ℝ) :
    ∃ gates, (.interaction g qs (.number θ) : Operation ℝ).decompose.result = .ok gates
      ∧ Elementary gates
      ∧ (⟨gates⟩ : Circuit ℝ).unitary (some (.ofList qs)) = .ok (g.unitary qs.length θ) := by
  have hgate : (.interaction g qs (.number θ) : Operation ℝ).IsConcreteGate :=
    ⟨rfl, rfl, hqs, hne⟩
  refine ⟨g.gates qs (.number θ), OperationOf.decompose_result rfl hne rfl,
    elementary_interaction g qs _, ?_⟩
  rw [← OperationOf.unitary_interaction g hne θ]
  exact hgate.unitary_elementary rfl (realizes_gates g hqs hne θ)

theorem hasEntries_zz (n : ℕ) (θ : ℝ) :
    (Interaction.zz.unitary n θ).HasEntries (2 ^ n) fun i j =>
      if i = j then Complex.exp (-Complex.I * θ / 2 * (-1) ^ Bits.weight n i) else 0 := by
  refine ⟨⟨rfl, rfl⟩, fun i j hi hj => ?_⟩
  rw [Interaction.unitary, ComplexMatrix.entry_diagonal _ hi hj]
  by_cases hij : i = j
  · rw [if_pos hij, if_pos hij, Amplitude.toComplex_phase]
    by_cases hweight : Bits.weight n i % 2 = 0
    · rw [if_pos hweight, (Nat.even_iff.2 hweight).neg_one_pow]
      congr 1
      push_cast [Scalar.half_real]
      ring
    · rw [if_neg hweight, (Nat.odd_iff.2 (by omega)).neg_one_pow]
      congr 1
      push_cast [Scalar.half_real]
      ring
  · rw [if_neg hij, if_neg hij]

theorem hasEntries_ms (n : ℕ) (θ : ℝ) :
    (Interaction.ms.unitary n θ).HasEntries (2 ^ n) fun i j =>
      Complex.cos (θ / 2) * (if i = j then 1 else 0)
        - Complex.I * Complex.sin (θ / 2) * (if i + j = 2 ^ n - 1 then 1 else 0) := by
  refine ⟨⟨rfl, rfl⟩, fun i j hi hj => ?_⟩
  have hanti : i = 2 ^ n - 1 - j ↔ i + j = 2 ^ n - 1 := by
    constructor <;> intro h <;> omega
  change ComplexMatrix.entry (.square (2 ^ n) _) i j = _
  rw [ComplexMatrix.entry_square _ hi hj]
  simp only [Amplitude.toComplex_sub, Amplitude.toComplex_mul, ComplexMatrix.toComplex_delta, hanti]
  simp

/-- **Ladder decompositions are exact.** On any number of different qubits the gates on one and two
qubits that an interaction decomposes into have the matrix of the interaction itself: a diagonal of
phases by the parity of ones, or a diagonal and an anti-diagonal. -/
theorem decompose_unitary (hqs : qs.Nodup) (hne : qs ≠ []) (θ : ℝ) :
    (∃ gates m, (.interaction .zz qs (.number θ) : Operation ℝ).decompose.result = .ok gates
      ∧ Elementary gates ∧ (⟨gates⟩ : Circuit ℝ).unitary (some (.ofList qs)) = .ok m
      ∧ (.interaction .zz qs (.number θ) : Operation ℝ).unitary = .ok m
      ∧ m.HasEntries (2 ^ qs.length) fun i j =>
        if i = j then Complex.exp (-Complex.I * θ / 2 * (-1) ^ Bits.weight qs.length i) else 0)
    ∧ ∃ gates m, (.interaction .ms qs (.number θ) : Operation ℝ).decompose.result = .ok gates
      ∧ Elementary gates ∧ (⟨gates⟩ : Circuit ℝ).unitary (some (.ofList qs)) = .ok m
      ∧ (.interaction .ms qs (.number θ) : Operation ℝ).unitary = .ok m
      ∧ m.HasEntries (2 ^ qs.length) fun i j =>
        Complex.cos (θ / 2) * (if i = j then 1 else 0)
          - Complex.I * Complex.sin (θ / 2) * (if i + j = 2 ^ qs.length - 1 then 1 else 0) := by
  obtain ⟨zz, hzz, hzzSmall, hzzUnitary⟩ := exists_decomposition .zz hqs hne θ
  obtain ⟨ms, hms, hmsSmall, hmsUnitary⟩ := exists_decomposition .ms hqs hne θ
  exact ⟨⟨zz, _, hzz, hzzSmall, hzzUnitary, OperationOf.unitary_interaction .zz hne θ,
      hasEntries_zz _ θ⟩,
    ⟨ms, _, hms, hmsSmall, hmsUnitary, OperationOf.unitary_interaction .ms hne θ,
      hasEntries_ms _ θ⟩⟩

theorem decompose_unitary_three_qubits :
    [4, 0, 2].Nodup ∧ [4, 0, 2] ≠ []
    ∧ (∃ gates m, (.interaction .zz [4, 0, 2] (.number 1) : Operation ℝ).decompose.result = .ok gates
      ∧ Elementary gates ∧ (⟨gates⟩ : Circuit ℝ).unitary (some (.ofList [4, 0, 2])) = .ok m
      ∧ (.interaction .zz [4, 0, 2] (.number 1) : Operation ℝ).unitary = .ok m
      ∧ m.entry 3 3 = Complex.exp (-Complex.I / 2) ∧ m.entry 7 7 = Complex.exp (Complex.I / 2))
    ∧ ∃ gates m, (.interaction .ms [4, 0, 2] (.number 1) : Operation ℝ).decompose.result = .ok gates
      ∧ Elementary gates ∧ (⟨gates⟩ : Circuit ℝ).unitary (some (.ofList [4, 0, 2])) = .ok m
      ∧ (.interaction .ms [4, 0, 2] (.number 1) : Operation ℝ).unitary = .ok m
      ∧ m.entry 5 5 = Complex.cos (1 / 2) ∧ m.entry 1 6 = -(Complex.I * Complex.sin (1 / 2)) := by
  have hnodup : [4, 0, 2].Nodup := by decide
  have hne : [4, 0, 2] ≠ [] := by decide
  obtain ⟨⟨zz, m, hzz, hsmall, hm, hclosed, hentries⟩, ms, m', hms, hsmall', hm', hclosed',
    hentries'⟩ := decompose_unitary hnodup hne 1
  have hweight : Bits.weight 3 3 = 2 ∧ Bits.weight 3 7 = 3 := by decide
  refine ⟨hnodup, hne, ⟨zz, m, hzz, hsmall, hm, hclosed, ?_, ?_⟩,
    ms, m', hms, hsmall', hm', hclosed', ?_, ?_⟩
  · rw [hentries.entry 3 3 (by decide) (by decide)]
    simp [hweight.1]
  · rw [hentries.entry 7 7 (by decide) (by decide)]
    simp only [List.length_cons, List.length_nil, zero_add, Nat.reduceAdd, if_true, hweight.2]
    congr 1
    push_cast
    ring
  · rw [hentries'.entry 5 5 (by decide) (by decide)]
    simp
  · rw [hentries'.entry 1 6 (by decide) (by decide)]
    simp

end Interaction

end CircuitIR
