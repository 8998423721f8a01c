import CircuitIR.Proofs.DecomposableCircuits
import CircuitIR.Proofs.MissingSymbols

/-!
# The shape of decomposed circuits

A circuit is decomposed operation by operation, in order: what is no gate on many qubits stays, and a gate on
many qubits gives way to gates on one or two qubits of its own, which leave none of its qubits out. Such gates
are not decomposed again, so a second pass finds nothing to do.
-/

namespace CircuitIR

namespace OperationOf

variable {I R : Type}

theorem IsSmallGate.isMultiQubitGate_eq_false {qs : List I} {ps : List (Parameter R)}
    {op : OperationOf I (Parameter R)} (h : op.IsSmallGate qs ps) :
    op.variant.isMultiQubitGate = false := by
  cases op with
  | fixed | angle | pair | controlledPhase => rfl
  | _ => exact h.elim

/-- What stands in a decomposed circuit for an operation: a gate on many qubits is replaced by gates on one or
two of its qubits, each of which some gate is on, and anything else stands for itself. -/
structure IsReplacedBy (op : Operation R) (gates : List (Operation R)) : Prop where
  kept : op.variant.isMultiQubitGate = false → gates = [op]
  small : op.variant.isMultiQubitGate = true → Small op.qubits op.parameters gates
  touched : op.variant.isMultiQubitGate = true → ∀ q ∈ op.qubits, Touches gates q

variable {op : Operation R} {gates : List (Operation R)}

theorem IsReplacedBy.isMultiQubitGate_eq_false (h : op.IsReplacedBy gates) :
    ∀ gate ∈ gates, gate.variant.isMultiQubitGate = false := by
  cases hmulti : op.variant.isMultiQubitGate with
  | false =>
      rw [h.kept hmulti]
      exact List.forall_mem_singleton.2 hmulti
  | true => exact fun gate hgate => (h.small hmulti gate hgate).isMultiQubitGate_eq_false

variable [Scalar R]

/-- Whatever the pass puts in the place of an operation is of this shape. -/
theorem isReplacedBy_of_expand (hdistinct : op.qubits.Nodup)
    (hgates : (Circuit.expand op).result = .ok gates) : op.IsReplacedBy gates := by
  cases hmulti : op.variant.isMultiQubitGate with
  | false =>
      rw [expand_other hmulti] at hgates
      exact {
        kept := fun _ => (Except.ok.inj hgates).symm
        small := fun h => absurd (hmulti.symm.trans h) Bool.false_ne_true
        touched := fun h => absurd (hmulti.symm.trans h) Bool.false_ne_true }
  | true =>
      rw [Circuit.expand, if_pos hmulti] at hgates
      have helementary : op.elementary? = some gates := decompose_eq_ok hgates
      exact {
        kept := fun h => absurd (h.symm.trans hmulti) Bool.false_ne_true
        small := fun _ => small_elementary hdistinct helementary
        touched := fun _ q hq => (touches_elementary helementary).2 hq }

end OperationOf

namespace Circuit

open OperationOf (IsReplacedBy)

section Shape

variable {R : Type} {ops : List (Operation R)} {parts : List (List (Operation R))}

theorem isMultiQubitGate_eq_false_of_replaced (h : List.Forall₂ IsReplacedBy ops parts) :
    ∀ op ∈ parts.flatten, op.variant.isMultiQubitGate = false := by
  induction h with
  | nil => exact fun _ h => absurd h List.not_mem_nil
  | cons hop _ ih => exact List.forall_mem_append.2 ⟨hop.isMultiQubitGate_eq_false, ih⟩

variable [Scalar R]

theorem forall₂_isReplacedBy (hdistinct : ∀ op ∈ ops, op.qubits.Nodup)
    (hparts : List.Forall₂ (fun op gates => (expand op).result = .ok gates) ops parts) :
    List.Forall₂ IsReplacedBy ops parts := by
  induction hparts with
  | nil => exact .nil
  | cons hop _ ih =>
      rw [List.forall_mem_cons] at hdistinct
      exact .cons (OperationOf.isReplacedBy_of_expand hdistinct.1 hop) (ih hdistinct.2)

theorem decompose_eq_self {c : Circuit R}
    (h : ∀ op ∈ c.operations, op.variant.isMultiQubitGate = false) :
    c.decompose.result = .ok c := by
  refine decompose_eq_ok_iff.2 ⟨c.operations.map fun op => [op], ?_, ?_⟩
  · rw [List.forall₂_map_right_iff, List.forall₂_same]
    exact fun op hop => OperationOf.expand_other (h op hop)
  · exact (List.flatMap_singleton' c.operations).symm

end Shape

/-- **The shape of decomposed circuits.** A circuit whose gates on many qubits can be decomposed becomes the
replacements of its operations, one after another. No gate on many qubits is left, and the result is its own
decomposition. -/
theorem decompose_shape {c : Circuit Float} (hdistinct : ∀ op ∈ c.operations, op.qubits.Nodup)
    (hc : ∀ op ∈ c.operations, op.IsDecomposable) :
    ∃ d parts, c.decompose.result = .ok d ∧ d.operations = parts.flatten
      ∧ List.Forall₂ IsReplacedBy c.operations parts
      ∧ (∀ op ∈ d.operations, op.variant.isMultiQubitGate = false)
      ∧ d.decompose.result = .ok d := by
  obtain ⟨parts, hparts⟩ := exists_mapM_eq_ok fun op hop => (hc op hop).exists_expand
  rw [mapM_eq_ok_iff] at hparts
  have hreplaced : List.Forall₂ IsReplacedBy c.operations parts :=
    forall₂_isReplacedBy hdistinct hparts
  have hplain : ∀ op ∈ parts.flatten, op.variant.isMultiQubitGate = false :=
    isMultiQubitGate_eq_false_of_replaced hreplaced
  exact ⟨⟨parts.flatten⟩, parts, decompose_eq_ok_iff.2 ⟨parts, hparts, rfl⟩, rfl, hreplaced, hplain,
    decompose_eq_self hplain⟩

/-- Operations of several kinds around gates on one, two and three qubits. -/
def measuredGates : Circuit Float where
  operations := [.definition .bit "ro" 2 true, .fourier [4] true true,
    .interaction .ms [3, 0] (.symbolic (.symbol "x")), .call "g" [] [], .multiControlledNot [2, 0, 5],
    .measure 5 "ro" 1]

theorem decompose_shape_measuredGates :
    (∀ op ∈ measuredGates.operations, op.qubits.Nodup)
      ∧ (∀ op ∈ measuredGates.operations, op.IsDecomposable)
      ∧ ∃ d parts, measuredGates.decompose.result = .ok d ∧ d.operations = parts.flatten
        ∧ List.Forall₂ IsReplacedBy measuredGates.operations parts
        ∧ (∀ op ∈ d.operations, op.variant.isMultiQubitGate = false)
        ∧ d.decompose.result = .ok d := by
  have hdistinct : ∀ op ∈ measuredGates.operations, op.qubits.Nodup := by
    simp [measuredGates, OperationOf.qubits]
  have hc : ∀ op ∈ measuredGates.operations, op.IsDecomposable := by
    simp only [measuredGates, List.forall_mem_cons]
    refine ⟨⟨?_, ?_⟩, ⟨?_, ?_⟩, ⟨?_, ?_⟩, ⟨?_, ?_⟩, ⟨?_, ?_⟩, ⟨?_, ?_⟩,
      fun _ h => absurd h List.not_mem_nil⟩
    all_goals decide
  exact ⟨hdistinct, hc, decompose_shape hdistinct hc⟩

end Circuit

end CircuitIR
