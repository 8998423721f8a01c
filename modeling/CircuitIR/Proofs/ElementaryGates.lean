import CircuitIR.Proofs.TouchedQubits

/-!
# Gates of decompositions

Decompositions consist of gates on one and two qubits: nothing they contain could be decomposed again.
-/

namespace CircuitIR

variable {I P R : Type}

/-- No member of a sequence is a gate on many qubits. -/
def Elementary (ops : List (OperationOf I P)) : Prop :=
  ∀ op ∈ ops, op.variant.isMultiQubitGate = false

section Elementary

variable {op : OperationOf I P} {ops ops' : List (OperationOf I P)}

@[simp]
theorem elementary_nil : Elementary ([] : List (OperationOf I P)) :=
  fun _ h => absurd h List.not_mem_nil

@[simp]
theorem elementary_cons :
    Elementary (op :: ops) ↔ op.variant.isMultiQubitGate = false ∧ Elementary ops :=
  List.forall_mem_cons

@[simp]
theorem elementary_append : Elementary (ops ++ ops') ↔ Elementary ops ∧ Elementary ops' :=
  List.forall_mem_append

@[simp]
theorem elementary_reverse : Elementary ops.reverse ↔ Elementary ops := by
  simp [Elementary]

end Elementary

theorem elementary_cnotLadder (qs : List I) :
    Elementary (cnotLadder qs : List (OperationOf I (Parameter R))) := by
  match qs with
  | [] => exact elementary_nil
  | [a] => exact elementary_nil
  | a :: b :: qs => exact elementary_cons.2 ⟨rfl, elementary_cnotLadder (b :: qs)⟩

theorem elementary_interaction (g : Interaction) (qs : List I) (θ : Parameter R) :
    Elementary (g.gates qs θ) := by
  have hbasis : Elementary (qs.map fun q => (.fixed .hadamard q : OperationOf I (Parameter R))) := by
    intro op hop
    obtain ⟨q, -, rfl⟩ := List.mem_map.1 hop
    rfl
  have hcore : Elementary (Interaction.gates .zz qs θ) := by
    simp only [Interaction.gates, elementary_append, elementary_reverse]
    refine ⟨⟨elementary_cnotLadder qs, fun op hop => ?_⟩, elementary_cnotLadder qs⟩
    rw [Option.mem_toList, Option.map_eq_some_iff] at hop
    obtain ⟨q, -, rfl⟩ := hop
    rfl
  cases g with
  | zz => exact hcore
  | ms => exact elementary_append.2 ⟨elementary_append.2 ⟨hbasis, hcore⟩, hbasis⟩

namespace Controlled

variable [Scalar R]

theorem elementary_toffoli (c d t : I) :
    Elementary (toffoli c d t : List (OperationOf I (Parameter R))) := by
  simp [toffoli, OperationOf.variant, Variant.isMultiQubitGate]

theorem elementary_flipBy {phase : I → Parameter R → List (OperationOf I (Parameter R))}
    (hphase : ∀ t φ, Elementary (phase t φ)) (controls : List I) (t : I) :
    Elementary (flipBy phase controls t) := by
  match controls with
  | [] => exact elementary_cons.2 ⟨rfl, elementary_nil⟩
  | [c] => exact elementary_cons.2 ⟨rfl, elementary_nil⟩
  | [d, c] => exact elementary_toffoli c d t
  | a :: b :: c :: controls =>
      have hbasis : Elementary [(.fixed .hadamard t : OperationOf I (Parameter R))] :=
        elementary_cons.2 ⟨rfl, elementary_nil⟩
      exact elementary_append.2 ⟨elementary_cons.2 ⟨rfl, hphase t _⟩, hbasis⟩

theorem elementary_phase (controls : List I) (t : I) (φ : Parameter R) :
    Elementary (phase controls t φ) := by
  induction controls generalizing t φ with
  | nil => exact elementary_cons.2 ⟨rfl, elementary_nil⟩
  | cons x controls ih =>
      cases controls with
      | nil => exact elementary_cons.2 ⟨rfl, elementary_nil⟩
      | cons y controls =>
          have hflip := elementary_flipBy ih (y :: controls) x
          simp only [phase, extend, elementary_append, elementary_cons]
          exact ⟨⟨⟨rfl, hflip⟩, rfl, hflip⟩, ih t _⟩

theorem elementary_flip (controls : List I) (t : I) :
    Elementary (flip controls t : List (OperationOf I (Parameter R))) :=
  elementary_flipBy (elementary_phase controls) controls t

end Controlled

namespace Fourier

theorem elementary_swaps (qs : List I) :
    Elementary (swaps qs : List (OperationOf I (Parameter R))) := by
  intro op hop
  obtain ⟨e, -, rfl⟩ := List.mem_map.1 hop
  rfl

variable [Scalar R]

theorem elementary_gates {qs : List I} {gates : List (OperationOf I (Parameter R))}
    (h : gates? qs = some gates) : Elementary gates := by
  induction qs generalizing gates with
  | nil =>
      rw [gates?, Option.some_inj] at h
      exact h ▸ elementary_nil
  | cons t qs ih =>
      simp only [gates?, Option.bind_eq_bind, Option.pure_def, Option.bind_eq_some_iff,
        Option.some_inj] at h
      obtain ⟨phases, hphases, rest, hrest, rfl⟩ := h
      refine elementary_append.2 ⟨elementary_cons.2 ⟨rfl, fun op hop => ?_⟩, ih hrest⟩
      obtain ⟨e, -, x, rfl⟩ := mem_phases hphases hop
      rfl

theorem elementary_decomposition {qs : List I} {s i : Bool}
    {gates : List (OperationOf I (Parameter R))} (h : decomposition? qs s i = some gates) :
    Elementary gates := by
  simp only [decomposition?, Option.bind_eq_bind, Option.bind_eq_some_iff] at h
  obtain ⟨forward, hforward, h⟩ := h
  have hgates := elementary_gates hforward
  have hinverse : Elementary (forward.reverse.map inverseGate) := by
    intro op hop
    obtain ⟨gate, hgate, rfl⟩ := List.mem_map.1 hop
    have hvariant : (inverseGate gate).variant = gate.variant := by
      cases gate <;> rfl
    rw [hvariant]
    exact hgates gate (List.mem_reverse.1 hgate)
  have hexchanges : Elementary (if s then swaps qs else [] : List (OperationOf I (Parameter R))) := by
    cases s
    · exact elementary_nil
    · exact elementary_swaps qs
  cases i with
  | false =>
      simp only [Bool.false_eq_true, if_false, Option.pure_def, Option.some_inj] at h
      exact h ▸ elementary_append.2 ⟨hgates, hexchanges⟩
  | true =>
      simp only [if_true, Option.pure_def, Option.some_inj] at h
      exact h ▸ elementary_append.2 ⟨hexchanges, hinverse⟩

end Fourier

variable [Scalar R]

theorem elementary_multiControlledNot {qs : List I} {gates : List (OperationOf I (Parameter R))}
    (h : multiControlledNot? qs = some gates) : Elementary gates := by
  rw [multiControlledNot?] at h
  split at h
  · exact absurd h (Option.some_ne_none gates).symm
  · rw [Option.some_inj] at h
    exact h ▸ Controlled.elementary_flip _ _

theorem elementary_multiControlledPhase {qs : List I} {φ : Parameter R}
    {gates : List (OperationOf I (Parameter R))} (h : multiControlledPhase? qs φ = some gates) :
    Elementary gates := by
  rw [multiControlledPhase?] at h
  split at h
  · exact absurd h (Option.some_ne_none gates).symm
  · rw [Option.some_inj] at h
    exact h ▸ Controlled.elementary_phase _ _ φ

theorem OperationOf.decompose_result {op : Operation R} {gates : List (Operation R)}
    (hmulti : op.variant.isMultiQubitGate = true) (hne : op.qubits ≠ [])
    (helementary : op.elementary? = some gates) : op.decompose.result = .ok gates := by
  have hempty : op.qubits.isEmpty = false := by simpa using hne
  rw [decompose, hmulti, hempty, helementary]
  rfl

theorem OperationOf.decompose_eq_ok {op : Operation R} {gates : List (Operation R)}
    (h : op.decompose.result = .ok gates) : op.elementary? = some gates := by
  unfold decompose at h
  split at h
  · exact nomatch h
  · split at h
    · exact nomatch h
    · cases helementary : op.elementary? with
      | none =>
          rw [helementary] at h
          exact nomatch h
      | some gates' =>
          rw [helementary] at h
          exact congrArg some (Except.ok.inj h)

/-- **Decompositions are elementary.** -/
theorem OperationOf.elementary_of_elementary? {op : OperationOf I (Parameter R)}
    {gates : List (OperationOf I (Parameter R))} (h : op.elementary? = some gates) :
    Elementary gates := by
  cases op with
  | interaction g qs θ =>
      rw [elementary?, Option.some_inj] at h
      exact h ▸ elementary_interaction g qs θ
  | multiControlledNot qs => exact elementary_multiControlledNot h
  | fourier qs s i => exact Fourier.elementary_decomposition h
  | _ => simp [elementary?] at h

end CircuitIR
