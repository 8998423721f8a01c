import CircuitIR.Proofs.CircuitRenaming
import CircuitIR.Proofs.Evolution
import CircuitIR.Proofs.MatrixOutcome

/-!
# Changes of the frame

The frame of a matrix says which qubit stands for which bit of an index, and nothing more. In every frame that
covers them concrete gates act on waves in the same way, so the entry between two assignments is the same too:
another order of the qubits rearranges the bits of the indices, and a further qubit at the end, on which the
gates cannot depend, is a factor of its own.
-/

namespace CircuitIR

open Assignment (value ofIndex value_lt)

theorem nodup_append_singleton {qs : List ℕ} {q : ℕ} (hqs : qs.Nodup) (hq : q ∉ qs) :
    (qs ++ [q]).Nodup := by
  rw [← List.concat_eq_append]
  exact hqs.concat hq

/-- The bits of a number that are in the order of some qubits, in the order of others. -/
def Bits.rearrange (qs qs' : List ℕ) (r : ℕ) : ℕ := select qs.length (qs'.map qs.idxOf) r

namespace ComplexMatrix

variable {m m' : ComplexMatrix ℝ} {qs qs' : List ℕ} {q : ℕ}

/-- Matrices that act alike in frames of the same qubits have the same entries, at rearranged indices. -/
theorem entry_rearrange (hqs : qs.Nodup) (hperm : qs'.Perm qs) (hact : ∀ ψ, m'.act qs' ψ = m.act qs ψ)
    {r c : ℕ} (hr : r < 2 ^ qs.length) (hc : c < 2 ^ qs.length) :
    m'.entry (Bits.rearrange qs qs' r) (Bits.rearrange qs qs' c) = m.entry r c := by
  have hsub : ∀ q ∈ qs', q ∈ qs := fun q hq => hperm.mem_iff.1 hq
  have hvalue : ∀ i < 2 ^ qs.length, Bits.rearrange qs qs' i = value qs' (ofIndex qs i) := by
    intro i hi
    have hselect := select_value hsub (ofIndex qs i)
    rwa [Assignment.value_ofIndex hqs hi] at hselect
  have hout : ∀ q ∉ qs, ofIndex qs r q = ofIndex qs c q := fun q hq => Assignment.ofIndex_congr hq r c
  have hout' : ∀ q ∉ qs', ofIndex qs r q = ofIndex qs c q := fun q hq =>
    hout q fun hmem => hq (hperm.mem_iff.2 hmem)
  calc m'.entry (Bits.rearrange qs qs' r) (Bits.rearrange qs qs' c)
      = m'.act qs' (pointWave (ofIndex qs c)) (ofIndex qs r) := by
        rw [hvalue r hr, hvalue c hc, act_pointWave (hperm.nodup_iff.2 hqs) m' hout']
    _ = m.act qs (pointWave (ofIndex qs c)) (ofIndex qs r) := by rw [hact]
    _ = m.entry r c := by
        rw [act_pointWave hqs m hout, Assignment.value_ofIndex hqs hr, Assignment.value_ofIndex hqs hc]

theorem entry_kronecker_identity (hm : m.HasSize (2 ^ qs.length)) (x y : Assignment) (q : ℕ) :
    (m.kronecker (identity 2)).entry (value qs x * 2 + (x q).toNat) (value qs y * 2 + (y q).toNat)
      = m.entry (value qs x) (value qs y) * if x q = y q then 1 else 0 := by
  have hbit : ∀ b : Bool, b.toNat < 2 := by decide
  have hget : (m.kronecker (identity 2)).get (value qs x * 2 + (x q).toNat)
        (value qs y * 2 + (y q).toNat)
      = m.get (value qs x) (value qs y) * delta (x q).toNat (y q).toNat := by
    rw [← get_identity (hbit (x q)) (hbit (y q))]
    exact get_kronecker (hm.rows ▸ value_lt qs x) (hm.cols ▸ value_lt qs y) (hbit (x q)) (hbit (y q))
  have hdelta : (x q).toNat = (y q).toNat ↔ x q = y q := by
    cases x q <;> cases y q <;> decide
  rw [entry, hget, Amplitude.toComplex_mul, toComplex_delta, entry]
  simp only [hdelta]

/-- A matrix that does not act on the last qubit of its frame is a product with the identity on that qubit. -/
theorem eq_kronecker_identity (hqs : qs.Nodup) (hq : q ∉ qs) (hm : m.HasSize (2 ^ qs.length))
    (hm' : m'.HasSize (2 ^ (qs ++ [q]).length)) (hact : ∀ ψ, m'.act (qs ++ [q]) ψ = m.act qs ψ) :
    m' = m.kronecker (identity 2) := by
  have hnodup : (qs ++ [q]).Nodup := nodup_append_singleton hqs hq
  have hlength : 2 ^ (qs ++ [q]).length = 2 ^ qs.length * 2 := by
    rw [List.length_append, List.length_singleton, pow_succ]
  have hsize : (m.kronecker (identity 2)).HasSize (2 ^ (qs ++ [q]).length) := by
    rw [hlength, ← hm.rows]
    exact ⟨rfl, congrArg (· * 2) (hm.cols.trans hm.rows.symm)⟩
  refine HasEntries.unique ⟨hm', fun _ _ _ _ => rfl⟩ ⟨hsize, fun r c hr hc => ?_⟩
  set x := ofIndex (qs ++ [q]) r with hx
  set y := ofIndex (qs ++ [q]) c with hy
  have hout : ∀ p ∉ qs ++ [q], x p = y p := fun p hp => Assignment.ofIndex_congr hp r c
  have hrow : r = value qs x * 2 + (x q).toNat := by
    rw [← Assignment.value_ofIndex hnodup hr, Assignment.value_append_singleton, Nat.mul_comm]
  have hcol : c = value qs y * 2 + (y q).toNat := by
    rw [← Assignment.value_ofIndex hnodup hc, Assignment.value_append_singleton, Nat.mul_comm]
  have hentry : m'.entry r c = m.act qs (pointWave y) x := by
    rw [← hact, act_pointWave hnodup m' hout, hx, hy, Assignment.value_ofIndex hnodup hr,
      Assignment.value_ofIndex hnodup hc]
  have hproduct : (m.kronecker (identity 2)).entry r c
      = m.entry (value qs x) (value qs y) * if x q = y q then 1 else 0 := by
    rw [hrow, hcol, entry_kronecker_identity hm]
  by_cases hxy : x q = y q
  · rw [hproduct, if_pos hxy, mul_one, hentry, act_pointWave hqs m]
    intro p hp
    by_cases hpq : p = q
    · rw [hpq, hxy]
    · exact hout p (by simp [hp, hpq])
  · rw [hproduct, if_neg hxy, mul_zero, hentry, act_pointWave_eq_zero hq m hxy]

end ComplexMatrix

namespace Circuit

variable {c : Circuit ℝ} {qs : List ℕ}

/-- In a frame that covers them concrete gates have a matrix with the action of their sequence. -/
theorem exists_unitary_of_covered (hc : ∀ op ∈ c.operations, op.IsConcreteGate) (hqs : qs.Nodup)
    (hcover : c.CoveredBy qs) :
    ∃ m, c.unitary (some (.ofList qs)) = .ok m ∧ m.HasSize (2 ^ qs.length)
      ∧ ∀ ψ, m.act qs ψ = evolve c.operations ψ :=
  exists_unitaryIn hqs hc fun q ⟨op, hop, hq⟩ => hcover op hop q hq

/-- In the frame of its own qubits a gate has the matrix that it has by itself, or the same failure. -/
theorem unitary_singleton {gate : Operation ℝ} (hgate : gate.variant.isGate = true)
    (hdistinct : gate.qubits.Nodup) :
    (⟨[gate]⟩ : Circuit ℝ).unitary (some (.ofList gate.qubits)) = gate.unitary := by
  obtain ⟨h, -⟩ | ⟨-, f, hf, -⟩ := OperationOf.evaluatesIff_unitary hdistinct
  · obtain ⟨m, hunitary, hrows, hcols⟩ := h.exists_unitary
    rw [hunitary]
    refine (Realizes.single h).unitaryIn_eq_ok hdistinct (fun q hq => ?_) ⟨hrows, hcols⟩ fun ψ => ?_
    · simpa using hq
    · rw [OperationOf.action_eq_act hunitary]
  · have hpositions : ∀ q ∈ gate.qubits,
        ((Frame.ofList gate.qubits).position? q).isSome = true := by
      intro q hq
      rw [Frame.position?_ofList hdistinct hq, Option.isSome_some]
    have hfailure := OperationOf.unitaryIn_eq_error hgate hpositions hf
    rw [unitary, unitaryIn, List.foldlM_cons, hfailure, hf]
    rfl

/-- **The frame only says which qubit stands for which bit.** Concrete gates have a matrix in every frame of
different qubits that covers them. In another order of the qubits it has the same entries, at indices with
the bits in this order. With one more qubit at the end it is the Kronecker product with the identity. A single
gate on different qubits has its own matrix in the frame of its qubits. -/
theorem unitary_frameChange (hc : ∀ op ∈ c.operations, op.IsConcreteGate) (hqs : qs.Nodup)
    (hcover : c.CoveredBy qs) :
    ∃ m, c.unitary (some (.ofList qs)) = .ok m ∧ m.HasSize (2 ^ qs.length)
      ∧ (∀ qs', qs'.Perm qs → ∃ m', c.unitary (some (.ofList qs')) = .ok m'
        ∧ m'.HasSize (2 ^ qs.length) ∧ ∀ r s, r < 2 ^ qs.length → s < 2 ^ qs.length →
          m'.entry (Bits.rearrange qs qs' r) (Bits.rearrange qs qs' s) = m.entry r s)
      ∧ (∀ q ∉ qs, c.unitary (some (.ofList (qs ++ [q]))) = .ok (m.kronecker (.identity 2)))
      ∧ ∀ gate : Operation ℝ, gate.variant.isGate = true → gate.qubits.Nodup →
        (⟨[gate]⟩ : Circuit ℝ).unitary (some (.ofList gate.qubits)) = gate.unitary := by
  obtain ⟨m, hm, hsize, hact⟩ := exists_unitary_of_covered hc hqs hcover
  refine ⟨m, hm, hsize, fun qs' hperm => ?_, fun q hq => ?_, fun gate => unitary_singleton⟩
  · have hcover' : c.CoveredBy qs' := fun op hop q hq => hperm.mem_iff.2 (hcover op hop q hq)
    obtain ⟨m', hm', hsize', hact'⟩ :=
      exists_unitary_of_covered hc (hperm.nodup_iff.2 hqs) hcover'
    refine ⟨m', hm', hperm.length_eq ▸ hsize', fun r s hr hs => ?_⟩
    exact ComplexMatrix.entry_rearrange hqs hperm (fun ψ => by rw [hact', hact]) hr hs
  · have hcover' : c.CoveredBy (qs ++ [q]) := fun op hop p hp =>
      List.mem_append_left _ (hcover op hop p hp)
    obtain ⟨m', hm', hsize', hact'⟩ :=
      exists_unitary_of_covered hc (nodup_append_singleton hqs hq) hcover'
    rw [hm', ComplexMatrix.eq_kronecker_identity hqs hq hsize hsize' fun ψ => by rw [hact', hact]]

/-- Asymmetric gates in an order of the qubits that is not its own inverse, with the two qubits of the flip in
front, and with one more qubit. -/
theorem unitary_frameChange_cyclicOrder :
    let c : Circuit ℝ := ⟨[.pair .cnot 5 2, .angle .rotateY 7 (.number 1), .multiControlledNot [7, 5, 2]]⟩
    ∃ m m', c.unitary (some (.ofList [2, 5, 7])) = .ok m
      ∧ c.unitary (some (.ofList [5, 7, 2])) = .ok m' ∧ m'.entry 1 2 = m.entry 4 1
      ∧ c.unitary (some (.ofList [2, 5, 7, 0])) = .ok (m.kronecker (.identity 2)) := by
  intro c
  have hc : ∀ op ∈ c.operations, op.IsConcreteGate := by
    simp only [c, List.forall_mem_cons]
    exact ⟨⟨rfl, rfl, by decide, by decide⟩, ⟨rfl, rfl, by decide, by decide⟩,
      ⟨rfl, rfl, by decide, by decide⟩, nofun⟩
  have hcover : c.CoveredBy [2, 5, 7] := by
    simp only [CoveredBy, c, List.forall_mem_cons, OperationOf.qubits]
    decide
  obtain ⟨m, hm, -, hperm, hextend, -⟩ := unitary_frameChange hc (by decide) hcover
  obtain ⟨m', hm', -, hentry⟩ := hperm [5, 7, 2] (by decide)
  exact ⟨m, m', hm, hm', hentry 4 1 (by decide) (by decide), hextend 0 (by decide)⟩

end Circuit

end CircuitIR
