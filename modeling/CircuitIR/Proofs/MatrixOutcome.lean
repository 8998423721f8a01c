import CircuitIR.Proofs.IntegerFrames
import CircuitIR.Proofs.InvolvedQubits

/-!
# When circuits have a matrix

An operation has a matrix in a frame if it is a gate on some qubits, all of its parameters are numbers, and its
qubits are in the frame. Everything else is a failure of the evaluation and never one of the embedding, since
the closed form of a gate has the size of its qubits, and these have different positions in range. A circuit has
a matrix if all of its operations have one.
-/

namespace CircuitIR

theorem Parameter.exists_symbolic {R : Type} {p : Parameter R} (h : p.isSymbolic = true) :
    ∃ e, p = .symbolic e := by
  cases p with
  | number x => exact nomatch h
  | symbolic e => exact ⟨e, rfl⟩

/-- An evaluation has a value if a condition holds, and fails as an evaluation of matrices if not. -/
def EvaluatesIff {α : Type} (x : Except Fault α) (p : Prop) : Prop :=
  (p ∧ ∃ a, x = .ok a) ∨ (¬ p ∧ ∃ f, x = .error f ∧ f.kind = .matrixEvaluation)

namespace EvaluatesIff

variable {α β : Type} {x : Except Fault α} {p q : Prop}

theorem congr (h : EvaluatesIff x p) (hpq : p ↔ q) : EvaluatesIff x q := by
  rwa [EvaluatesIff, ← hpq]

/-- Values that are gathered one after the other: all of them must be there. -/
theorem foldlM {f : β → Except Fault α} {holds : β → Prop} {items : List β}
    (h : ∀ b ∈ items, EvaluatesIff (f b) (holds b)) (combine : α → α → α) (total : α) :
    EvaluatesIff (items.foldlM (fun total b => do return combine (← f b) total) total)
      (∀ b ∈ items, holds b) := by
  induction items generalizing total with
  | nil => exact Or.inl ⟨fun _ hb => absurd hb List.not_mem_nil, total, rfl⟩
  | cons b items ih =>
      rw [List.forall_mem_cons] at h
      rw [List.foldlM_cons, List.forall_mem_cons]
      obtain ⟨hb, a, ha⟩ | ⟨hb, f, hf, hkind⟩ := h.1
      · rw [ha]
        exact (ih h.2 (combine a total)).congr (iff_and_self.2 fun _ => hb)
      · rw [hf]
        exact Or.inr ⟨fun hall => hb hall.1, f, rfl, hkind⟩

end EvaluatesIff

variable {R : Type}

namespace OperationOf

variable {op : Operation R}

theorem concrete?_eq_none (hgate : op.variant.isGate = true) (h : op.isParametrized = true) :
    op.concrete? = none := by
  cases op with
  | angle g q θ =>
      obtain ⟨e, rfl⟩ := Parameter.exists_symbolic (by simpa [isParametrized, parameters] using h)
      rfl
  | controlledPhase c t θ =>
      obtain ⟨e, rfl⟩ := Parameter.exists_symbolic (by simpa [isParametrized, parameters] using h)
      rfl
  | interaction g qs θ =>
      obtain ⟨e, rfl⟩ := Parameter.exists_symbolic (by simpa [isParametrized, parameters] using h)
      rfl
  | fixed | pair | multiControlledNot | fourier => exact absurd h Bool.false_ne_true
  | _ => exact absurd hgate Bool.false_ne_true

variable [Scalar R] {frame : Frame}

theorem evaluatesIff_unitary (hdistinct : op.qubits.Nodup) :
    EvaluatesIff op.unitary op.IsConcreteGate := by
  by_cases hgate : op.variant.isGate = true
  · by_cases hempty : op.qubits = []
    · refine Or.inr ⟨fun h => h.nonempty hempty, .matrixOnNoQubits op.name, ?_, rfl⟩
      simp [unitary, hgate, hempty]
    · by_cases hsymbolic : op.isParametrized = true
      · refine Or.inr ⟨fun h => ?_, .symbolicMatrix op.name (Parameter.symbolicTexts op.parameters), ?_, rfl⟩
        · exact Bool.false_ne_true (h.concrete.symm.trans hsymbolic)
        · simp [unitary, hgate, hempty, concrete?_eq_none hgate hsymbolic]
      · have h : op.IsConcreteGate := ⟨hgate, Bool.eq_false_iff.2 hsymbolic, hdistinct, hempty⟩
        obtain ⟨m, hm, -⟩ := h.exists_unitary
        exact Or.inl ⟨h, m, hm⟩
  · refine Or.inr ⟨fun h => hgate h.isGate, .noMatrix op.name, ?_, rfl⟩
    simp [unitary, hgate]

/-- Once an operation has its own matrix and its qubits have positions, the embedding cannot fail. -/
theorem evaluatesIff_unitaryIn (hframe : frame.IsPositioned) (hdistinct : op.qubits.Nodup) :
    EvaluatesIff (op.unitaryIn frame)
      (op.IsConcreteGate ∧ ∀ q ∈ op.qubits, (frame.position? q).isSome = true) := by
  set missing := op.qubits.filter fun q => (frame.position? q).isNone with hmissing
  have hcovered : missing = [] ↔ ∀ q ∈ op.qubits, (frame.position? q).isSome = true := by
    rw [hmissing, List.filter_eq_nil_iff]
    exact forall₂_congr fun q _ => by rw [Bool.not_eq_true, Option.isNone_eq_false_iff]
  by_cases hgate : op.variant.isGate = true
  · by_cases hnone : missing = []
    · obtain ⟨h, m, hm⟩ | ⟨h, f, hf, hkind⟩ := evaluatesIff_unitary hdistinct
      · have hposition : ∀ q ∈ op.qubits,
            frame.position? q = some ((frame.position? q).getD 0) := by
          intro q hq
          obtain ⟨p, hp⟩ := Option.isSome_iff_exists.1 (hcovered.1 hnone q hq)
          rw [hp, Option.getD_some]
        exact Or.inl ⟨⟨h, hcovered.1 hnone⟩, _, h.unitaryIn_eq_lift hm hframe hposition⟩
      · exact Or.inr ⟨fun hboth => h hboth.1, f, unitaryIn_eq_error hgate (hcovered.1 hnone) hf, hkind⟩
    · refine Or.inr ⟨fun hboth => hnone (hcovered.2 hboth.2),
        .outsideFrame op.name (missing.map Int.ofNat) frame.text, ?_, rfl⟩
      have hsome : missing.isEmpty = false := by simpa using hnone
      rw [unitaryIn, ← hmissing, hgate]
      simp only [hsome]
      rfl
  · refine Or.inr ⟨fun hboth => hgate hboth.1.isGate, .noMatrix op.name, ?_, rfl⟩
    rw [unitaryIn, Bool.eq_false_iff.2 hgate]
    rfl

end OperationOf

namespace OperationOf

/-- A gate on some of the listed qubits, at least one, with numbers as parameters. -/
structure IsEvaluableOn {R : Type} (op : Operation R) (qs : List ℤ) : Prop where
  isGate : op.variant.isGate = true
  concrete : op.isParametrized = false
  nonempty : op.qubits ≠ []
  listed : ∀ q ∈ op.qubits, (q : ℤ) ∈ qs

theorem isEvaluableOn_iff {op : Operation R} {qs : List ℤ} (hdistinct : op.qubits.Nodup) :
    op.IsEvaluableOn qs ↔ op.IsConcreteGate
      ∧ ∀ q ∈ op.qubits, ((Frame.ofIntegers qs).position? q).isSome = true := by
  simp only [Frame.isSome_position?_ofIntegers]
  constructor
  · intro h
    exact ⟨⟨h.isGate, h.concrete, hdistinct, h.nonempty⟩, h.listed⟩
  · rintro ⟨h, hlisted⟩
    exact ⟨h.isGate, h.concrete, h.nonempty, hlisted⟩

end OperationOf

namespace Circuit

variable [Scalar R] {c : Circuit R}

theorem evaluatesIff_unitary (hc : ∀ op ∈ c.operations, op.qubits.Nodup) (qs : List ℤ) :
    EvaluatesIff (c.unitary (some (.ofIntegers qs))) (∀ op ∈ c.operations, op.IsEvaluableOn qs) := by
  have hops : ∀ op ∈ c.operations,
      EvaluatesIff (op.unitaryIn (.ofIntegers qs)) (op.IsEvaluableOn qs) := by
    intro op hop
    have hdistinct := hc op hop
    exact (OperationOf.evaluatesIff_unitaryIn (Frame.isPositioned_ofIntegers qs) hdistinct).congr
      (OperationOf.isEvaluableOn_iff hdistinct).symm
  exact EvaluatesIff.foldlM hops (fun m total => m * total) (ComplexMatrix.identity (2 ^ qs.length))

theorem unitary_none_eq_error {op : Operation R} (hop : op ∈ c.operations) (hall : op.involved = .all) :
    c.unitary none = .error .unboundedCircuit := by
  have hany : (c.operations.map fun op => op.involved).any Involved.isAll = true :=
    List.any_eq_true.2 ⟨.all, List.mem_map.2 ⟨op, hop, hall⟩, rfl⟩
  have hown : c.ownFrame = .error .unboundedCircuit := by
    rw [ownFrame, involved, if_pos hany]
  change c.ownFrame >>= c.unitaryIn = _
  rw [hown]
  rfl

/-- **Evaluating matrices has one kind of failure.** With a list of integers as its frame a circuit of operations
on different qubits has a matrix exactly if all operations are gates on some of the listed qubits, at least one
each, with numbers as parameters; otherwise the evaluation fails as such, and not for a wrong value, as
an embedding could. Without a list the evaluation also fails if some operation acts on all qubits, and else is
that with the involved qubits in increasing order. -/
theorem unitary_outcome (hc : ∀ op ∈ c.operations, op.qubits.Nodup) :
    (∀ qs : List ℤ, ∃ frame, Frame.ofDatum (.list (qs.map .int)) = .ok frame
        ∧ EvaluatesIff (c.unitary (some frame)) (∀ op ∈ c.operations, op.IsEvaluableOn qs))
      ∧ ((∃ op ∈ c.operations, op.involved = .all) →
        ∃ f, c.unitary none = .error f ∧ f.kind = .matrixEvaluation)
      ∧ ((∀ op ∈ c.operations, op.involved ≠ .all) →
        ∃ qs : List ℕ, qs.Pairwise (· < ·)
          ∧ (∀ q, q ∈ qs ↔ ∃ op ∈ c.operations, q ∈ op.involved.toList)
          ∧ ∃ frame, Frame.ofDatum (.list (Datum.ofNats qs)) = .ok frame
            ∧ c.unitary none = c.unitary (some frame)) := by
  refine ⟨fun qs => ⟨_, Frame.ofDatum_ints qs, evaluatesIff_unitary hc qs⟩, ?_, fun h => ?_⟩
  · rintro ⟨op, hop, hall⟩
    exact ⟨_, unitary_none_eq_error hop hall, rfl⟩
  · set qs := Involved.ofList ((c.operations.map fun op => op.involved).flatMap Involved.toList)
      with hqs
    have hvalues : Datum.ofNats qs = (qs.map Int.ofNat).map .int := (List.map_map).symm
    refine ⟨qs, Involved.pairwise_ofList _, fun q => ?_, _, hvalues ▸ Frame.ofDatum_ints _, ?_⟩
    · rw [hqs, Involved.mem_ofList, List.flatMap_map, List.mem_flatMap]
    · change c.ownFrame >>= c.unitaryIn = _
      rw [ownFrame_eq_ok (any_isAll_eq_false_iff.2 h), Frame.ofIntegers_map_ofNat]
      rfl

/-- Two gates, in a frame that lists one of their qubits twice and an integer that is no qubit, and in one that
lacks a qubit. -/
theorem unitary_outcome_repeatedFrame :
    let c : Circuit Float := ⟨[.fixed .hadamard 3, .pair .cnot 0 3]⟩
    (∀ op ∈ c.operations, op.qubits.Nodup)
      ∧ (∃ frame m, Frame.ofDatum (.list [.int 3, .int 0, .int 3, .int (-1)]) = .ok frame
        ∧ c.unitary (some frame) = .ok m)
      ∧ ∃ frame f, Frame.ofDatum (.list [.int 0]) = .ok frame
        ∧ c.unitary (some frame) = .error f ∧ f.kind = .matrixEvaluation := by
  intro c
  have hc : ∀ op ∈ c.operations, op.qubits.Nodup := by
    simp [c, OperationOf.qubits]
  have hlisted : ∀ op ∈ c.operations, op.IsEvaluableOn [3, 0, 3, -1] := by
    simp only [c, List.forall_mem_cons]
    exact ⟨⟨rfl, rfl, List.cons_ne_nil _ _, by decide⟩, ⟨rfl, rfl, List.cons_ne_nil _ _, by decide⟩,
      List.forall_mem_nil _⟩
  have hlacking : ¬ ∀ op ∈ c.operations, op.IsEvaluableOn [0] := fun h =>
    absurd ((h (.fixed .hadamard 3) List.mem_cons_self).listed 3 List.mem_cons_self) (by decide)
  obtain ⟨frame, hframe, houtcome⟩ := (unitary_outcome hc).1 [3, 0, 3, -1]
  obtain ⟨frame', hframe', houtcome'⟩ := (unitary_outcome hc).1 [0]
  obtain ⟨-, m, hm⟩ := houtcome.resolve_right fun h => h.1 hlisted
  obtain ⟨-, f, hf, hkind⟩ := houtcome'.resolve_left fun h => hlacking h.1
  exact ⟨hc, ⟨frame, m, hframe, hm⟩, frame', f, hframe', hf, hkind⟩

end Circuit

end CircuitIR
