import CircuitIR.Proofs.FourierDecomposition
import CircuitIR.Proofs.Unitarity

/-!
# The inverse Fourier transform

The entries of the Fourier transform are symmetric in row and column, also when one of them is read backwards,
so the inverse, which conjugates them and reorders columns where the transform reorders rows, is the adjoint.
The transform is unitary since its gates are, and this makes both products the identity; no sum of roots of
unity has to be computed. The gates of the inverse are those of the transform in reverse order, with the phases
negated. Only the exchanges keep their order, and they commute.
-/

namespace CircuitIR.Fourier

open ComplexMatrix

/-! ### Closed forms -/

theorem dft_comm (d j k : ℕ) : dft d j k = dft d k j := by
  rw [dft, dft, mul_comm j k]

theorem adjoint_fourierUnitary (n : ℕ) (s i : Bool) :
    (fourierUnitary n s i : ComplexMatrix ℝ).adjoint = fourierUnitary n s (!i) := by
  have hentries := hasEntries_fourier n s i
  refine HasEntries.unique ⟨hentries.toHasSize.adjoint, fun j k hj hk => ?_⟩
    (hasEntries_fourier n s (!i))
  rw [entry_adjoint hentries.toHasSize hj hk, hentries.entry k j hk hj]
  cases i with
  | false => simp [dft_comm _ j]
  | true => simp [dft_comm _ _ k]

variable {qs : List ℕ}

theorem isUnitary_fourierUnitary (hqs : qs.Nodup) (hne : qs ≠ []) (s i : Bool) :
    (fourierUnitary qs.length s i : ComplexMatrix ℝ).IsUnitary (2 ^ qs.length) := by
  have hgate : (.fourier qs s i : Operation ℝ).IsConcreteGate := ⟨rfl, rfl, hqs, hne⟩
  exact hgate.isUnitary (OperationOf.unitary_fourier hne s i)

/-- A transform in one direction undoes the one in the other. -/
theorem fourierUnitary_mul_not (hqs : qs.Nodup) (hne : qs ≠ []) (s i : Bool) :
    (fourierUnitary qs.length s i * fourierUnitary qs.length s (!i) : ComplexMatrix ℝ)
      = ComplexMatrix.identity (2 ^ qs.length) := by
  rw [← adjoint_fourierUnitary]
  exact (isUnitary_fourierUnitary hqs hne s i).mul_adjoint

/-! ### Gates -/

/-- The exchanges of a transform, if it has any. -/
def exchanges (s : Bool) (qs : List ℕ) : List (Operation ℝ) := if s then swaps qs else []

/-- All gates of a transform or of its inverse. -/
noncomputable def sequence (qs : List ℕ) (s i : Bool) : List (Operation ℝ) :=
  if i then exchanges s qs ++ (gates qs).reverse.map inverseGate else gates qs ++ exchanges s qs

theorem decomposition?_eq (qs : List ℕ) (s i : Bool) :
    decomposition? qs s i = some (sequence qs s i) := by
  rw [decomposition?, gates?_eq]
  cases i <;> rfl

theorem decompose_eq_sequence (hne : qs ≠ []) (s i : Bool) :
    (.fourier qs s i : Operation ℝ).decompose.result = .ok (sequence qs s i) :=
  OperationOf.decompose_result rfl hne (decomposition?_eq qs s i)

theorem realizes_sequence (hqs : qs.Nodup) (hne : qs ≠ []) (s i : Bool) :
    Realizes (sequence qs s i) (.fourier qs s i : Operation ℝ).action := by
  obtain ⟨ops, hops, hrealizes⟩ := exists_realizes hqs hne s i
  obtain rfl := Option.some.inj ((decomposition?_eq qs s i).symm.trans hops)
  exact hrealizes

/-- In the frame of its qubits the gates have the matrix of the transform. -/
theorem unitaryIn_sequence (hqs : qs.Nodup) (hne : qs ≠ []) (s i : Bool) :
    (⟨sequence qs s i⟩ : Circuit ℝ).unitaryIn (.ofList qs)
      = .ok (fourierUnitary qs.length s i) := by
  have hgate : (.fourier qs s i : Operation ℝ).IsConcreteGate := ⟨rfl, rfl, hqs, hne⟩
  rw [← OperationOf.unitary_fourier hne s i]
  exact hgate.unitary_elementary (decomposition?_eq qs s i) (realizes_sequence hqs hne s i)

/-- The gates of both directions, one after the other, have the matrix that changes nothing. -/
theorem unitaryIn_sequence_append (hqs : qs.Nodup) (hne : qs ≠ []) (s i : Bool) :
    (⟨sequence qs s i ++ sequence qs s (!i)⟩ : Circuit ℝ).unitaryIn (.ofList qs)
      = .ok (ComplexMatrix.identity (2 ^ qs.length)) := by
  have htouches : ∀ i q, Touches (sequence qs s i) q → q ∈ qs := fun i _ =>
    (touches_decomposition (decomposition?_eq qs s i)).1
  have happend := unitaryIn_append hqs (realizes_sequence hqs hne s i).isConcrete
    (realizes_sequence hqs hne s (!i)).isConcrete (htouches i) (htouches (!i))
    (unitaryIn_sequence hqs hne s i) (unitaryIn_sequence hqs hne s (!i))
  have hproduct := fourierUnitary_mul_not hqs hne s (!i)
  rw [Bool.not_not] at hproduct
  rw [happend, hproduct]

theorem mem_gates {op : Operation ℝ} (hop : op ∈ gates qs) :
    (∃ q, op = .fixed .hadamard q) ∨ ∃ c t x, op = .controlledPhase c t (.number x) := by
  induction qs with
  | nil => exact absurd hop List.not_mem_nil
  | cons t qs ih =>
      rw [gates, List.cons_append, List.mem_cons, List.mem_append, phases, List.mem_map] at hop
      obtain rfl | ⟨e, -, rfl⟩ | hop := hop
      · exact Or.inl ⟨t, rfl⟩
      · exact Or.inr ⟨e.1, t, _, rfl⟩
      · exact ih hop

theorem pairwise_swaps (hqs : qs.Nodup) :
    (swaps qs : List (Operation ℝ)).Pairwise fun a b => ∀ q ∈ a.qubits, q ∉ b.qubits := by
  induction qs using List.bidirectionalRec with
  | nil => exact .nil
  | singleton a =>
      rw [swaps, List.length_singleton, Nat.div_eq_of_lt Nat.one_lt_two, List.take_zero]
      exact .nil
  | cons_append a middle b ih =>
      obtain ⟨-, ha, hb, hmiddle⟩ := nodup_cons_append hqs
      rw [swaps_cons_append, List.pairwise_cons]
      refine ⟨fun op hop q hq hmem => ?_, ih hmiddle⟩
      have hinner : q ∈ middle := mem_of_touches_swaps ⟨op, hop, hmem⟩
      rcases List.mem_pair.1 hq with rfl | rfl
      · exact ha hinner
      · exact hb hinner

/-- The gates of a transform and of its inverse: a sequence and its reverse with the phases negated, around
exchanges whose order does not matter, since no two of them share a qubit. -/
structure IsReversal (gates exchanges forward inverse : List (Operation ℝ)) : Prop where
  forward_eq : forward = gates ++ exchanges
  inverse_eq : inverse = exchanges ++ gates.reverse.map inverseGate
  isGate : ∀ op ∈ gates,
    (∃ q, op = .fixed .hadamard q) ∨ ∃ c t x, op = .controlledPhase c t (.number x)
  isSwap : ∀ op ∈ exchanges, ∃ a b, op = .pair .swap a b
  disjoint : exchanges.Pairwise fun a b => ∀ q ∈ a.qubits, q ∉ b.qubits

theorem isReversal_sequence (hqs : qs.Nodup) (s : Bool) :
    IsReversal (gates qs) (exchanges s qs) (sequence qs s false) (sequence qs s true) where
  forward_eq := rfl
  inverse_eq := rfl
  isGate _ := mem_gates
  isSwap op hop := by
    cases s with
    | false => exact absurd hop List.not_mem_nil
    | true =>
        obtain ⟨e, -, rfl⟩ := List.mem_map.1 hop
        exact ⟨e.1, e.2, rfl⟩
  disjoint := by
    cases s with
    | false => exact .nil
    | true => exact pairwise_swaps hqs

/-- **The inverse transform undoes the transform.** On any number of different qubits, with or without
swaps, the product of both matrices is the identity in either order, and so is the matrix of both
decompositions, one after the other. The decomposition of the inverse is that of the transform in reverse
order, up to the order of exchanges on different qubits, with the phases negated. -/
theorem inverse_undoes (hqs : qs.Nodup) (hne : qs ≠ []) (s : Bool) :
    ∃ m w forward inverse,
      (.fourier qs s false : Operation ℝ).unitary = .ok m
      ∧ (.fourier qs s true : Operation ℝ).unitary = .ok w
      ∧ m * w = ComplexMatrix.identity (2 ^ qs.length)
      ∧ w * m = ComplexMatrix.identity (2 ^ qs.length)
      ∧ (.fourier qs s false : Operation ℝ).decompose.result = .ok forward
      ∧ (.fourier qs s true : Operation ℝ).decompose.result = .ok inverse
      ∧ (⟨forward⟩ ++ ⟨inverse⟩ : Circuit ℝ).unitary (some (.ofList qs))
        = .ok (ComplexMatrix.identity (2 ^ qs.length))
      ∧ (⟨inverse⟩ ++ ⟨forward⟩ : Circuit ℝ).unitary (some (.ofList qs))
        = .ok (ComplexMatrix.identity (2 ^ qs.length))
      ∧ ∃ gates exchanges, IsReversal gates exchanges forward inverse :=
  ⟨fourierUnitary qs.length s false, fourierUnitary qs.length s true, sequence qs s false,
    sequence qs s true, OperationOf.unitary_fourier hne s false, OperationOf.unitary_fourier hne s true,
    fourierUnitary_mul_not hqs hne s false, fourierUnitary_mul_not hqs hne s true,
    decompose_eq_sequence hne s false, decompose_eq_sequence hne s true,
    unitaryIn_sequence_append hqs hne s false, unitaryIn_sequence_append hqs hne s true,
    gates qs, exchanges s qs, isReversal_sequence hqs s⟩

theorem inverse_undoes_four_qubits :
    [3, 0, 1, 7].Nodup ∧ [3, 0, 1, 7] ≠ []
      ∧ ∃ m w forward inverse,
        (.fourier [3, 0, 1, 7] true false : Operation ℝ).unitary = .ok m
        ∧ (.fourier [3, 0, 1, 7] true true : Operation ℝ).unitary = .ok w
        ∧ m * w = ComplexMatrix.identity 16 ∧ w * m = ComplexMatrix.identity 16
        ∧ (.fourier [3, 0, 1, 7] true false : Operation ℝ).decompose.result = .ok forward
        ∧ (.fourier [3, 0, 1, 7] true true : Operation ℝ).decompose.result = .ok inverse
        ∧ (⟨forward⟩ ++ ⟨inverse⟩ : Circuit ℝ).unitary (some (.ofList [3, 0, 1, 7]))
          = .ok (ComplexMatrix.identity 16)
        ∧ (⟨inverse⟩ ++ ⟨forward⟩ : Circuit ℝ).unitary (some (.ofList [3, 0, 1, 7]))
          = .ok (ComplexMatrix.identity 16)
        ∧ ∃ gates exchanges, IsReversal gates exchanges forward inverse := by
  have hqs : [3, 0, 1, 7].Nodup := by decide
  have hne : [3, 0, 1, 7] ≠ [] := by decide
  exact ⟨hqs, hne, inverse_undoes hqs hne true⟩

end CircuitIR.Fourier
