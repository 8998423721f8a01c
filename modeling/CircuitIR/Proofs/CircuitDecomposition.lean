import CircuitIR.Circuit.Passes
import CircuitIR.Proofs.ControlledDecomposition
import CircuitIR.Proofs.FourierDecomposition
import CircuitIR.Proofs.InteractionDecomposition
import CircuitIR.Proofs.InvolvedQubits

/-!
# Decomposition of circuits

Every gate on many qubits has elementary gates that act as it does and touch its qubits. Waves do not
know of frames, so this lifts to whole circuits by induction, and the matrices are equal in every frame
at once.
-/

namespace CircuitIR

namespace OperationOf

variable {op : Operation ℝ}

/-- **Every gate on many qubits has an exact decomposition.** -/
theorem IsConcreteGate.exists_elementary (h : op.IsConcreteGate)
    (hmulti : op.variant.isMultiQubitGate = true) :
    ∃ gates, op.elementary? = some gates ∧ Realizes gates op.action := by
  obtain ⟨-, hconcrete, hdistinct, hnonempty⟩ := h
  cases op with
  | interaction g qs θ =>
      obtain ⟨x, rfl⟩ := Parameter.exists_number (by simpa [isParametrized, parameters] using hconcrete)
      exact ⟨_, rfl, Interaction.realizes_gates g hdistinct hnonempty x⟩
  | multiControlledNot qs => exact Controlled.exists_realizes_flip hdistinct hnonempty
  | fourier qs s i => exact Fourier.exists_realizes hdistinct hnonempty s i
  | _ => exact absurd hmulti Bool.false_ne_true

/-- What replaces a gate acts as the gate, is elementary and touches the same qubits. -/
theorem IsConcreteGate.expand_result (h : op.IsConcreteGate) :
    ∃ gates, (Circuit.expand op).result = .ok gates ∧ Realizes gates op.action
      ∧ Elementary gates ∧ ∀ q, Touches gates q ↔ q ∈ op.qubits := by
  rw [Circuit.expand]
  cases hmulti : op.variant.isMultiQubitGate with
  | false => exact ⟨[op], rfl, .single h, by simp [hmulti], fun q => by simp⟩
  | true =>
      obtain ⟨gates, hgates, hrealizes⟩ := h.exists_elementary hmulti
      exact ⟨gates, decompose_result hmulti h.nonempty hgates, hrealizes,
        elementary_of_elementary? hgates, fun q => touches_elementary hgates⟩

end OperationOf

namespace Circuit

/-- The parts of a circuit together act as the circuit, are elementary and touch the same qubits. -/
theorem mapM_expand_result {ops : List (Operation ℝ)} (h : ∀ op ∈ ops, op.IsConcreteGate) :
    ∃ parts, (ops.mapM expand).result = .ok parts ∧ Realizes parts.flatten (evolve ops)
      ∧ Elementary parts.flatten ∧ ∀ q, Touches parts.flatten q ↔ Touches ops q := by
  induction ops with
  | nil => exact ⟨[], rfl, Realizes.nil, elementary_nil, fun q => Iff.rfl⟩
  | cons op ops ih =>
      obtain ⟨gates, hgates, hrealizes, hsmall, htouches⟩ := (h op List.mem_cons_self).expand_result
      obtain ⟨parts, hparts, hrest, hsmallRest, htouchesRest⟩ :=
        ih fun op' hop' => h op' (List.mem_cons_of_mem op hop')
      refine ⟨gates :: parts, ?_, hrealizes.append hrest, elementary_append.2 ⟨hsmall, hsmallRest⟩,
        fun q => ?_⟩
      · rw [List.mapM_cons, Traced.result_bind, hgates]
        change ((ops.mapM expand) >>= fun parts => pure (gates :: parts)).result = _
        rw [Traced.result_bind, hparts]
        rfl
      · rw [List.flatten_cons, touches_append, htouches, htouchesRest, touches_cons]

theorem exists_decompose {c : Circuit ℝ} (hc : ∀ op ∈ c.operations, op.IsConcreteGate) :
    ∃ d, c.decompose.result = .ok d ∧ Realizes d.operations (evolve c.operations)
      ∧ Elementary d.operations ∧ ∀ q, Touches d.operations q ↔ Touches c.operations q := by
  obtain ⟨parts, hparts, hrealizes, hsmall, htouches⟩ := mapM_expand_result hc
  refine ⟨⟨parts.flatten⟩, ?_, hrealizes, hsmall, htouches⟩
  rw [decompose, Traced.result_bind, hparts]
  rfl

/-- **Decomposition preserves the meaning of circuits.** A circuit of concrete gates decomposes into
gates on one and two qubits. They involve the same qubits and have the same matrix, in the circuit's own
frame and in every frame of different qubits that contains those of the circuit. -/
theorem decompose_preserves {c : Circuit ℝ} (hc : ∀ op ∈ c.operations, op.IsConcreteGate) :
    ∃ d, c.decompose.result = .ok d ∧ Elementary d.operations ∧ d.involved = c.involved
      ∧ (∃ m, c.unitary none = .ok m ∧ d.unitary none = .ok m)
      ∧ ∀ qs, qs.Nodup → (∀ op ∈ c.operations, ∀ q ∈ op.qubits, q ∈ qs) →
        ∃ m, c.unitary (some (.ofList qs)) = .ok m ∧ d.unitary (some (.ofList qs)) = .ok m := by
  obtain ⟨d, hd, hrealizes, hsmall, htouches⟩ := exists_decompose hc
  have hsame : Realizes c.operations (evolve c.operations) := ⟨hc, fun _ => rfl⟩
  have hcGate : ∀ op ∈ c.operations, op.variant.isGate = true := fun op hop => (hc op hop).isGate
  have hdGate : ∀ op ∈ d.operations, op.variant.isGate = true := fun op hop =>
    (hrealizes.isConcrete op hop).isGate
  have hframe : ∀ qs, qs.Nodup → (∀ q, Touches c.operations q → q ∈ qs) →
      ∃ m, c.unitaryIn (.ofList qs) = .ok m ∧ d.unitaryIn (.ofList qs) = .ok m := fun qs hqs hsub =>
    hsame.exists_unitaryIn_eq hrealizes hqs hsub fun q hq => hsub q ((htouches q).1 hq)
  have hinvolved : d.involved = c.involved := involved_congr hdGate hcGate htouches
  refine ⟨d, hd, hsmall, hinvolved, ?_, fun qs hqs hcover => hframe qs hqs ?_⟩
  · obtain ⟨qs, hown, hqs, hsub⟩ := exists_ownFrame hcGate
    have hown' : d.ownFrame = .ok (.ofList qs) := (ownFrame_congr hinvolved).trans hown
    obtain ⟨m, hm, hm'⟩ := hframe qs hqs hsub
    refine ⟨m, ?_, ?_⟩
    · rw [unitary, hown]
      exact hm
    · rw [unitary, hown']
      exact hm'
  · rintro q ⟨op, hop, hq⟩
    exact hcover op hop q hq

/-- Gates of all sizes on overlapping qubits. -/
noncomputable def mixedGates : Circuit ℝ where
  operations := [.fixed .hadamard 5, .pair .cnot 5 2, .multiControlledNot [7, 2, 0, 5],
    .fourier [2, 0] false true, .interaction .ms [0, 7] (.number 1)]

theorem decompose_preserves_mixedGates :
    (∀ op ∈ mixedGates.operations, op.IsConcreteGate)
      ∧ ∃ d, mixedGates.decompose.result = .ok d ∧ Elementary d.operations
        ∧ d.involved = .finite [0, 2, 5, 7]
        ∧ (∃ m, mixedGates.unitary none = .ok m ∧ d.unitary none = .ok m)
        ∧ ∃ m, mixedGates.unitary (some (.ofList [9, 7, 0, 5, 2])) = .ok m
          ∧ d.unitary (some (.ofList [9, 7, 0, 5, 2])) = .ok m := by
  have hgates : ∀ op ∈ mixedGates.operations, op.IsConcreteGate := by
    simp only [mixedGates, List.forall_mem_cons]
    exact ⟨⟨rfl, rfl, by decide, by decide⟩, ⟨rfl, rfl, by decide, by decide⟩,
      ⟨rfl, rfl, by decide, by decide⟩, ⟨rfl, rfl, by decide, by decide⟩,
      ⟨rfl, rfl, by decide, by decide⟩, fun _ h => absurd h List.not_mem_nil⟩
  obtain ⟨d, hd, hsmall, hinvolved, hown, hframe⟩ := decompose_preserves hgates
  have hcover : ∀ op ∈ mixedGates.operations, ∀ q ∈ op.qubits, q ∈ [9, 7, 0, 5, 2] := by
    simp only [mixedGates, List.forall_mem_cons, OperationOf.qubits]
    decide
  exact ⟨hgates, d, hd, hsmall, hinvolved, hown, hframe _ (by decide) hcover⟩

end Circuit

end CircuitIR
