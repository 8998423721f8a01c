import CircuitIR.Proofs.BuiltGates
import Mathlib.Data.List.Pairwise

/-!
# Invalid qubits of controlled gates

The generators of controlled gates do not look at their qubits. What refuses a negative or a repeated one is
the validation of the gates that they emit: every qubit is in one of them, and any two places of the list are
together in one of them (`pairwise_joins_phase`), wherever the list repeats a qubit.
-/

namespace CircuitIR

variable {I P R : Type}

/-- Some gate of a sequence is on exactly these two qubits. -/
def Joins (gates : List (OperationOf I P)) (a b : I) : Prop :=
  ∃ gate ∈ gates, gate.qubits = [a, b] ∨ gate.qubits = [b, a]

section Joins

variable {gate : OperationOf I P} {gates gates' : List (OperationOf I P)} {a b : I}

theorem Joins.symm (h : Joins gates a b) : Joins gates b a :=
  h.imp fun _ hgate => ⟨hgate.1, hgate.2.symm⟩

theorem Joins.mono (h : Joins gates a b) (hsub : ∀ gate ∈ gates, gate ∈ gates') : Joins gates' a b :=
  h.imp fun gate hgate => ⟨hsub gate hgate.1, hgate.2⟩

theorem Joins.exists_not_nodup (h : Joins gates a a) : ∃ gate ∈ gates, ¬ gate.qubits.Nodup := by
  obtain ⟨gate, hgate, hqubits⟩ := h
  refine ⟨gate, hgate, ?_⟩
  rw [or_self] at hqubits
  rw [hqubits]
  simp

end Joins

namespace Controlled

variable [Scalar R]

theorem pairwise_joins_toffoli (c d t : I) :
    [t, d, c].Pairwise (Joins (toffoli c d t : List (OperationOf I (Parameter R)))) := by
  have htd : Joins (toffoli c d t : List (OperationOf I (Parameter R))) t d :=
    ⟨.pair .cnot d t, by simp [toffoli], Or.inr rfl⟩
  have htc : Joins (toffoli c d t : List (OperationOf I (Parameter R))) t c :=
    ⟨.pair .cnot c t, by simp [toffoli], Or.inr rfl⟩
  have hdc : Joins (toffoli c d t : List (OperationOf I (Parameter R))) d c :=
    ⟨.pair .cnot c d, by simp [toffoli], Or.inr rfl⟩
  simp [htd, htc, hdc]

theorem pairwise_joins_flipBy {phase : I → Parameter R → List (OperationOf I (Parameter R))}
    {controls : List I} {t : I}
    (hphase : (t :: controls).Pairwise (Joins (phase t (.number Scalar.pi)))) :
    (t :: controls).Pairwise (Joins (flipBy phase controls t)) := by
  match controls with
  | [] => exact List.pairwise_singleton _ t
  | [c] => exact List.pairwise_pair.2 ⟨.pair .cnot c t, List.mem_singleton_self _, Or.inr rfl⟩
  | [d, c] => exact pairwise_joins_toffoli c d t
  | a :: b :: c :: controls =>
      refine hphase.imp fun h => h.mono fun gate hgate => ?_
      rw [flipBy]
      · exact List.mem_append_left _ (List.mem_cons_of_mem _ hgate)
      all_goals simp

/-- **Any two places are together in a gate.** The target and the last control have a gate of their own, the
target meets the other controls in the remaining phase, and all controls meet in the flips. -/
theorem pairwise_joins_phase (controls : List I) (t : I) (φ : Parameter R) :
    (t :: controls).Pairwise (Joins (phase controls t φ)) := by
  induction controls generalizing t φ with
  | nil => exact List.pairwise_singleton _ t
  | cons x controls ih =>
      cases controls with
      | nil =>
          exact List.pairwise_pair.2 ⟨.controlledPhase x t φ, List.mem_singleton_self _, Or.inr rfl⟩
      | cons y controls =>
          have hflip : (x :: y :: controls).Pairwise (Joins (flipBy (phase (y :: controls))
              (y :: controls) x : List (OperationOf I (Parameter R)))) :=
            pairwise_joins_flipBy (ih x _)
          have hrest := List.pairwise_cons.1 (ih t φ.half)
          have htx : Joins (phase (x :: y :: controls) t φ) t x :=
            ⟨.controlledPhase x t φ.half, by simp [phase, extend], Or.inr rfl⟩
          refine List.pairwise_cons.2 ⟨List.forall_mem_cons.2 ⟨htx, fun c hc => ?_⟩, ?_⟩
          · exact (hrest.1 c hc).mono (by simp +contextual [phase, extend])
          · exact hflip.imp fun h => h.mono (by simp +contextual [phase, extend])

theorem pairwise_joins_flip (controls : List I) (t : I) :
    (t :: controls).Pairwise (Joins (flip controls t : List (OperationOf I (Parameter R)))) :=
  pairwise_joins_flipBy (pairwise_joins_phase controls t _)

theorem exists_places (controls : List I) (t : I) :
    ∃ (n : ℕ) (k : Fin n) (ks : List (Fin n)) (f : Fin n → I),
      (k :: ks).Nodup ∧ f k = t ∧ ks.map f = controls := by
  have hplaces : (0 :: (List.finRange controls.length).map Fin.succ).Nodup := by
    rw [← List.finRange_succ]
    exact List.nodup_finRange _
  refine ⟨_, 0, (List.finRange controls.length).map Fin.succ, (t :: controls).get, hplaces, rfl, ?_⟩
  rw [List.map_map]
  exact List.map_get_finRange controls

theorem isGate_flip (controls : List I) (t : I) :
    ∀ gate ∈ (flip controls t : List (OperationOf I (Parameter R))), gate.variant.isGate = true := by
  obtain ⟨n, k, ks, f, hplaces, rfl, rfl⟩ := exists_places controls t
  rw [flip_map f f]
  refine List.forall_mem_map.2 fun gate hgate => ?_
  rw [OperationOf.variant_mapIndices]
  exact (small_flip hplaces gate hgate).isGate

theorem isGate_phase (controls : List I) (t : I) (x : R) :
    ∀ gate ∈ phase controls t (.number x), gate.variant.isGate = true := by
  obtain ⟨n, k, ks, f, hplaces, rfl, rfl⟩ := exists_places controls t
  rw [phase_map f f]
  refine List.forall_mem_map.2 fun gate hgate => ?_
  rw [OperationOf.variant_mapIndices]
  exact (small_phase hplaces x gate hgate).isGate

end Controlled

/-! ## Rejection -/

/-- Gates on one or two of some qubits at a time, in which every qubit occurs, and any two places together. -/
structure Spans (gates : List (OperationOf I P)) (qs : List I) : Prop where
  isGate : ∀ gate ∈ gates, gate.variant.isGate = true
  elementary : Elementary gates
  touches : ∀ q, Touches gates q ↔ q ∈ qs
  joins : qs.Pairwise (Joins gates)
  nodup : qs.Nodup → ∀ gate ∈ gates, gate.qubits.Nodup

/-- The call fails as the initialization of an operation does. -/
def IsRejected {α : Type} (r : Except Fault α) : Prop := ∃ f, r = .error f ∧ f.kind = .initialization

section Rejection

variable {qs : List ℤ} {drafts : List (Draft Float)} {r : Except Fault (List (Operation Float))}

/-- Gates that span some qubits are all valid exactly if the qubits are different and not negative. -/
theorem Spans.forall_valid_iff (h : Spans drafts qs) :
    (∀ draft ∈ drafts, ∃ op, draft.validate = .ok op) ↔ (∀ q ∈ qs, 0 ≤ q) ∧ qs.Nodup := by
  have hvalid : ∀ draft ∈ drafts,
      (∃ op, draft.validate = .ok op) ↔ (∀ q ∈ draft.qubits, 0 ≤ q) ∧ draft.qubits.Nodup := by
    intro draft hdraft
    rw [OperationOf.exists_validate_iff, counts_eq_nil (h.isGate draft hdraft)]
    simp
  rw [forall₂_congr hvalid]
  constructor
  · intro hall
    refine ⟨fun q hq => ?_, h.joins.imp fun hjoins heq => ?_⟩
    · obtain ⟨draft, hdraft, hmem⟩ := (h.touches q).2 hq
      exact (hall draft hdraft).1 q hmem
    · obtain ⟨draft, hdraft, hrepeated⟩ := (heq ▸ hjoins).exists_not_nodup
      exact hrepeated (hall draft hdraft).2
  · rintro ⟨hnonneg, hdistinct⟩ draft hdraft
    exact ⟨fun q hq => hnonneg q ((h.touches q).1 ⟨draft, hdraft, hq⟩), h.nodup hdistinct draft hdraft⟩

theorem Spans.isRejected_iff (h : Spans drafts qs)
    (hbuilds : Builds (drafts.map (OperationOf.mapIndices .ok .ok)) r) :
    (IsRejected r ↔ (∃ q ∈ qs, q < 0) ∨ ¬ qs.Nodup)
      ∧ ((∃ gates, r = .ok gates) ↔ (∀ q ∈ qs, 0 ≤ q) ∧ qs.Nodup) := by
  have hinvalid : (∃ q ∈ qs, q < 0) ∨ ¬ qs.Nodup ↔ ¬ ((∀ q ∈ qs, 0 ≤ q) ∧ qs.Nodup) := by
    rw [not_and_or]
    push Not
    rfl
  rw [hinvalid, ← h.forall_valid_iff]
  obtain ⟨ops, rfl, hops⟩ | ⟨f, rfl, hkind, draft, hdraft, hfault⟩ := hbuilds.outcome h.isGate
  · have hall := exists_ok_of_mapM hops
    exact ⟨⟨fun ⟨_, hf, _⟩ => (nomatch hf), fun hnot => absurd hall hnot⟩,
      ⟨fun _ => hall, fun _ => ⟨ops, rfl⟩⟩⟩
  · have hnot : ¬ ∀ draft ∈ drafts, ∃ op, draft.validate = .ok op := by
      intro hall
      obtain ⟨op, hop⟩ := hall draft hdraft
      exact nomatch hop.symm.trans hfault
    exact ⟨⟨fun _ => hnot, fun _ => ⟨f, rfl, hkind⟩⟩,
      ⟨fun ⟨_, hok⟩ => (nomatch hok), fun hall => absurd hall hnot⟩⟩

end Rejection

namespace Controlled

variable [Scalar R] {qs : List I} {t : I} {controls : List I}

theorem mem_iff_of_reverse_eq (hqs : qs.reverse = t :: controls) (q : I) :
    q ∈ qs ↔ q ∈ t :: controls := by
  rw [← hqs, List.mem_reverse]

theorem spans_flip (hqs : qs.reverse = t :: controls) :
    Spans (flip controls t : List (OperationOf I (Parameter R))) qs where
  isGate := isGate_flip controls t
  elementary := elementary_flip controls t
  touches q := (touches_flip controls t).trans (mem_iff_of_reverse_eq hqs q).symm
  joins := by
    have hjoins : qs.reverse.Pairwise (Joins (flip controls t : List (OperationOf I (Parameter R)))) :=
      hqs ▸ pairwise_joins_flip controls t
    exact (List.pairwise_reverse.1 hjoins).imp Joins.symm
  nodup hdistinct gate hgate :=
    (small_flip (hqs ▸ List.nodup_reverse.2 hdistinct) gate hgate).nodup

theorem spans_phase (hqs : qs.reverse = t :: controls) (x : R) :
    Spans (phase controls t (.number x)) qs where
  isGate := isGate_phase controls t x
  elementary := elementary_phase controls t _
  touches q := (touches_phase controls t _).trans (mem_iff_of_reverse_eq hqs q).symm
  joins := by
    have hjoins : qs.reverse.Pairwise (Joins (phase controls t (.number x))) :=
      hqs ▸ pairwise_joins_phase controls t _
    exact (List.pairwise_reverse.1 hjoins).imp Joins.symm
  nodup hdistinct gate hgate :=
    (small_phase (hqs ▸ List.nodup_reverse.2 hdistinct) x gate hgate).nodup

/-- **Invalid qubits are refused.** On any list of integers but the empty one, the generators emit gates in which
every qubit and any two places of the list occur. So a bit flip, and a phase by any number, fails as the
initialization of an operation does exactly if an integer is negative or repeated, wherever it stands, and
returns gates in all other cases. -/
theorem generators_reject {qs : List ℤ} (hne : qs ≠ []) :
    ((∃ drafts : List (Draft Float), multiControlledNot? qs = some drafts ∧ Spans drafts qs)
      ∧ (IsRejected (controlledFlipOf ((qs.map Datum.int).map Datum.toQubit))
        ↔ (∃ q ∈ qs, q < 0) ∨ ¬ qs.Nodup)
      ∧ ((∃ gates, controlledFlipOf ((qs.map Datum.int).map Datum.toQubit) = .ok gates)
        ↔ (∀ q ∈ qs, 0 ≤ q) ∧ qs.Nodup))
    ∧ ∀ x : Float,
      (∃ drafts : List (Draft Float), multiControlledPhase? qs (.number x) = some drafts
        ∧ Spans drafts qs)
      ∧ (IsRejected (controlledPhaseOf (qs.map Datum.int) (.real x)).result
        ↔ (∃ q ∈ qs, q < 0) ∨ ¬ qs.Nodup)
      ∧ ((∃ gates, (controlledPhaseOf (qs.map Datum.int) (.real x)).result = .ok gates)
        ↔ (∀ q ∈ qs, 0 ≤ q) ∧ qs.Nodup) := by
  obtain ⟨t, controls, hqs⟩ := List.exists_cons_of_ne_nil (List.reverse_ne_nil_iff.2 hne)
  constructor
  · have hspans : Spans (flip controls t : List (Draft Float)) qs := spans_flip hqs
    exact ⟨⟨_, by rw [multiControlledNot?, hqs], hspans⟩,
      hspans.isRejected_iff (builds_controlledFlipOf hqs)⟩
  · intro x
    have hspans : Spans (phase controls t (.number x)) qs := spans_phase hqs x
    exact ⟨⟨_, by rw [multiControlledPhase?, hqs], hspans⟩,
      hspans.isRejected_iff (builds_controlledPhaseOf hqs x)⟩

/-- Two controls far from each other are the same, or one is negative. -/
theorem generators_reject_distantControls :
    ([3, 0, 5, 3, 7] : List ℤ) ≠ [] ∧ ([3, 0, 5, -1, 7] : List ℤ) ≠ []
    ∧ IsRejected (controlledFlipOf ((([3, 0, 5, 3, 7] : List ℤ).map Datum.int).map Datum.toQubit))
    ∧ IsRejected (controlledPhaseOf (([3, 0, 5, 3, 7] : List ℤ).map Datum.int) (.real 0.5)).result
    ∧ IsRejected (controlledFlipOf ((([3, 0, 5, -1, 7] : List ℤ).map Datum.int).map Datum.toQubit))
    ∧ IsRejected (controlledPhaseOf (([3, 0, 5, -1, 7] : List ℤ).map Datum.int) (.real 0.5)).result := by
  have hrepeated : ([3, 0, 5, 3, 7] : List ℤ) ≠ [] := by decide
  have hnegative : ([3, 0, 5, -1, 7] : List ℤ) ≠ [] := by decide
  obtain ⟨⟨-, hflip, -⟩, hphase⟩ := generators_reject hrepeated
  obtain ⟨⟨-, hflip', -⟩, hphase'⟩ := generators_reject hnegative
  exact ⟨hrepeated, hnegative, hflip.2 (by decide), (hphase 0.5).2.1.2 (by decide),
    hflip'.2 (by decide), (hphase' 0.5).2.1.2 (by decide)⟩

end Controlled

end CircuitIR
