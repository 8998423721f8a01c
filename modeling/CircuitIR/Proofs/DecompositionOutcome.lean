import CircuitIR.Proofs.DecomposableCircuits

/-!
# Outcomes of decompositions

A gate on many qubits is declared on no qubits and does not decompose, or it is a Fourier transform whose
largest power of two is no double, or it decomposes into gates on its qubits that can all be built. The angles
of a transform on `n` qubits are `π / 2 ^ k` with `k < n`, and `2 ^ 1024` is the first power that is too large.
-/

namespace CircuitIR

theorem Fourier.decomposition?_eq_none {qs : List ℕ} (h : 1024 < qs.length) (s i : Bool) :
    (Fourier.decomposition? qs s i : Option (List (Operation Float))) = none := by
  have hgates : (Fourier.gates? qs : Option (List (Operation Float))) = none := by
    rw [← Option.not_isSome_iff_eq_none, Fourier.isSome_gates_iff]
    intro hangles
    exact Nat.lt_irrefl 1024 (Fourier.isSome_piOver?_float.1 (hangles 1024 (by decide) h))
  rw [Fourier.decomposition?, hgates]
  rfl

namespace OperationOf

variable {R : Type} [Scalar R]

theorem decompose_of_nil {op : Operation R} (hmulti : op.variant.isMultiQubitGate = true)
    (hqubits : op.qubits = []) :
    op.decompose.result = .error (.decompositionOnNoQubits op.name) := by
  rw [decompose, hmulti, hqubits]
  rfl

theorem decompose_of_none {op : Operation R} (hmulti : op.variant.isMultiQubitGate = true)
    (hne : op.qubits ≠ []) (helementary : op.elementary? = none) :
    op.decompose.result = .error (.foreign (.arithmetic .overflow)) := by
  have hempty : op.qubits.isEmpty = false := by simpa using hne
  rw [decompose, hmulti, hempty, helementary]
  rfl

theorem decompose_fourier_of_lt {qs : List ℕ} (h : 1024 < qs.length) (s i : Bool) :
    (.fourier qs s i : Operation Float).decompose.result = .error (.foreign (.arithmetic .overflow)) := by
  have hne : qs ≠ [] := List.length_pos_iff.1 (by omega)
  exact decompose_of_none rfl hne (Fourier.decomposition?_eq_none h s i)

/-- **When a decomposition exists.** A gate on different qubits decomposes, whatever its flags and its angle,
into gates on one or two of them that are valid operations, with two exceptions: without qubits the fault is one
of decomposition, and a Fourier transform on more than 1024 qubits overflows. -/
theorem decompose_outcome {op : Operation Float} (hmulti : op.variant.isMultiQubitGate = true)
    (hdistinct : op.qubits.Nodup) :
    (op.qubits = [] ∧ op.decompose.result = .error (.decompositionOnNoQubits op.name))
      ∨ (op.variant = .fourier ∧ 1024 < op.qubits.length
        ∧ op.decompose.result = .error (.foreign (.arithmetic .overflow)))
      ∨ (op.IsDecomposable ∧ ∃ gates, op.decompose.result = .ok gates
        ∧ ∀ gate ∈ gates, gate.IsSmallGate op.qubits op.parameters
          ∧ gate.toDraft.validate = .ok gate) := by
  by_cases hne : op.qubits = []
  · exact Or.inl ⟨hne, decompose_of_nil hmulti hne⟩
  by_cases hrange : op.variant = .fourier ∧ 1024 < op.qubits.length
  · refine Or.inr (Or.inl ⟨hrange.1, hrange.2, ?_⟩)
    cases op with
    | fourier qs s i => exact decompose_fourier_of_lt hrange.2 s i
    | _ => exact nomatch hrange.1
  · have hdecomposable : op.IsDecomposable :=
      ⟨fun _ => hne, fun hfourier => Nat.not_lt.1 fun hlt => hrange ⟨hfourier, hlt⟩⟩
    obtain ⟨gates, hgates⟩ := hdecomposable.exists_elementary hmulti
    refine Or.inr (Or.inr ⟨hdecomposable, gates, decompose_result hmulti hne hgates, ?_⟩)
    intro gate hgate
    have hsmall := small_elementary hdistinct hgates gate hgate
    exact ⟨hsmall, validate_toDraft hsmall.nodup⟩

theorem decompose_outcome_emptyAndSymbolic :
    (.multiControlledNot [] : Operation Float).decompose.result
        = .error (.decompositionOnNoQubits "MultiQubitCNOT")
      ∧ ∃ gates, (.interaction .ms [7, 0, 3] (.symbolic (.symbol "x")) : Operation Float).decompose.result
          = .ok gates
        ∧ ∀ gate ∈ gates, gate.IsSmallGate [7, 0, 3] [.symbolic (.symbol "x")]
          ∧ gate.toDraft.validate = .ok gate := by
  constructor
  · have hempty : (.multiControlledNot [] : Operation Float).variant.isMultiQubitGate = true := rfl
    rcases decompose_outcome hempty List.nodup_nil with ⟨-, h⟩ | ⟨hvariant, -⟩ | ⟨hdecomposable, -⟩
    · exact h
    · exact nomatch hvariant
    · exact absurd rfl (hdecomposable.nonempty rfl)
  · have hsymbolic : (.interaction .ms [7, 0, 3] (.symbolic (.symbol "x"))
        : Operation Float).variant.isMultiQubitGate = true := rfl
    rcases decompose_outcome hsymbolic (by decide) with ⟨hnil, -⟩ | ⟨hvariant, -⟩ | ⟨-, h⟩
    · exact nomatch hnil
    · exact nomatch hvariant
    · exact h

theorem decompose_fourier_manyQubits :
    (.fourier (List.range 1025) false false : Operation Float).toDraft.validate
        = .ok (.fourier (List.range 1025) false false)
      ∧ (.fourier (List.range 1025) false false : Operation Float).decompose.result
        = .error (.foreign (.arithmetic .overflow)) := by
  have hlength : 1024 < (List.range 1025).length :=
    Nat.lt_of_lt_of_eq (Nat.lt_succ_self 1024) List.length_range.symm
  refine ⟨validate_toDraft ?_, decompose_fourier_of_lt hlength false false⟩
  rw [qubits]
  exact List.nodup_range

end OperationOf

end CircuitIR
