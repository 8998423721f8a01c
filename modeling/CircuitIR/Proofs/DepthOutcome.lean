import CircuitIR.Circuit.Summary
import CircuitIR.Proofs.QubitLevels

/-!
# Circuits without a depth

A gate on many qubits and a call can be declared on an empty list of qubits. Neither has a level then, so a
circuit with one has no depth, and no summary either, since that states the depth. All other circuits have both.
-/

namespace CircuitIR

variable {R : Type}

namespace OperationOf

/-- An operation on a list of qubits, and the list is empty. -/
def IsOnNoQubits (op : Operation R) : Prop :=
  (op.variant.isMultiQubitGate = true ∨ op.variant = .call) ∧ op.qubits = []

theorem involved_eq_empty_iff {op : Operation R} : op.involved = .finite [] ↔ op.IsOnNoQubits := by
  cases op with
  | interaction | multiControlledNot | fourier =>
      simp [IsOnNoQubits, involved, qubits, variant, Variant.isMultiQubitGate, Involved.ofList_eq_nil_iff]
  | call => simp [IsOnNoQubits, involved, qubits, variant, Involved.ofList_eq_nil_iff]
  | globalPhase | setMeasurements | repeatedMeasurement | definition =>
      simp [IsOnNoQubits, involved, variant, Variant.isMultiQubitGate]
  | _ => simp [IsOnNoQubits, involved, qubits, Involved.ofList_eq_nil_iff]

end OperationOf

namespace Circuit

/-- **When depth and summary exist.** A circuit has both, whatever is in it, or it has an operation on an empty
list of qubits, and then both fail with a wrong value. -/
theorem depth_outcome (c : Circuit R) :
    ((∀ op ∈ c.operations, ¬ op.IsOnNoQubits) ∧ ∃ n text, c.depth = .ok n ∧ c.summary = .ok text)
      ∨ ((∃ op ∈ c.operations, op.IsOnNoQubits)
        ∧ c.depth = .error (.foreign .wrongValue) ∧ c.summary = .error (.foreign .wrongValue)) := by
  by_cases h : ∃ op ∈ c.operations, op.IsOnNoQubits
  · have hempty : .finite [] ∈ c.operations.map fun op => op.involved := by
      obtain ⟨op, hop, hnone⟩ := h
      exact List.mem_map.2 ⟨op, hop, OperationOf.involved_eq_empty_iff.2 hnone⟩
    have hdepth : c.depth = .error (.foreign .wrongValue) := by
      rw [depth_eq, Levels.foldlM_after_eq_error hempty]
      rfl
    refine Or.inr ⟨h, hdepth, ?_⟩
    rw [summary, hdepth]
    rfl
  · push Not at h
    obtain ⟨s, -, hdepth⟩ := exists_levels fun op hop hempty =>
      h op hop (OperationOf.involved_eq_empty_iff.1 hempty)
    refine Or.inl ⟨h, s.top, ?_⟩
    rw [summary, hdepth]
    exact ⟨_, rfl, rfl⟩

/-- A pair of gates and a call that is declared on no qubits. -/
def calledOnNoQubits : Circuit Float where
  operations := [.fixed .hadamard 0, .pair .cnot 0 1, .call "g" [] []]

theorem depth_calledOnNoQubits :
    validateAll (calledOnNoQubits.operations.map OperationOf.toDraft) = .ok calledOnNoQubits.operations
      ∧ calledOnNoQubits.depth = .error (.foreign .wrongValue)
      ∧ calledOnNoQubits.summary = .error (.foreign .wrongValue) :=
  ⟨rfl, rfl, rfl⟩

end Circuit

end CircuitIR
