import CircuitIR.Proofs.GateMatrix
import CircuitIR.Proofs.Wave

/-!
# Embedded matrices

A matrix is embedded into more qubits exactly if it has the size of its positions and these are different and in
range. An entry of the result is the entry at the bits that stand at the positions, or zero if some other bit
differs. The positions are a frame of their own, in which the embedded matrix acts as the matrix does, so
embedding keeps products and the identity.
-/

namespace CircuitIR.ComplexMatrix

variable {a b m : ComplexMatrix ℝ} {positions : List ℕ} {n : ℕ}

theorem hasSize_identity (n : ℕ) : (identity n : ComplexMatrix ℝ).HasSize n := .square n delta

theorem hasEntries_lift (m : ComplexMatrix ℝ) (positions : List ℕ) (n : ℕ) :
    (m.lift positions n).HasEntries (2 ^ n) fun r c =>
      if ∀ p < n, p ∉ positions → Bits.bit n p r = Bits.bit n p c then
        m.entry (Bits.select n positions r) (Bits.select n positions c)
      else 0 where
  toHasSize := .square _ _
  entry r c hr hc := by
    have hagree : Bits.agreeOutside n positions r c = true
        ↔ ∀ p < n, p ∉ positions → Bits.bit n p r = Bits.bit n p c := by
      simp only [Bits.agreeOutside, List.all_eq_true, List.mem_range, Bool.or_eq_true,
        List.contains_iff_mem, beq_iff_eq, or_iff_not_imp_left]
    rw [lift, entry_square _ hr hc, embeddedEntry, Amplitude.toComplex_mul]
    by_cases h : Bits.agreeOutside n positions r c = true
    · rw [if_pos h, if_pos (hagree.1 h), Amplitude.toComplex_one, mul_one]
      rfl
    · rw [if_neg h, if_neg fun hbits => h (hagree.2 hbits), Amplitude.toComplex_zero, mul_zero]

/-- The qubits that are numbered by their positions form a frame, in which the lifted matrix acts as the
matrix itself. -/
theorem act_lift_range (hdistinct : positions.Nodup) (hrange : ∀ p ∈ positions, p < n)
    (m : ComplexMatrix ℝ) (ψ : Wave) :
    act (m.lift positions n) (List.range n) ψ = act m positions ψ := by
  have hsub : ∀ p ∈ positions, p ∈ List.range n := fun p hp => List.mem_range.2 (hrange p hp)
  have hself : positions.map (List.range n).idxOf = positions := by
    conv_rhs => rw [← List.map_id positions]
    refine List.map_congr_left fun p hp => ?_
    have hlt : p < (List.range n).length := by simpa using hrange p hp
    have hget : (List.range n)[p] = p := List.getElem_range hlt
    have hidx := List.nodup_range.idxOf_getElem p hlt
    rwa [hget] at hidx
  have hact := act_lift List.nodup_range hdistinct hsub m ψ
  rwa [hself, List.length_range] at hact

theorem lift_mul (hdistinct : positions.Nodup) (hrange : ∀ p ∈ positions, p < n)
    (ha : a.HasSize (2 ^ positions.length)) (hb : b.HasSize (2 ^ positions.length)) :
    (a * b).lift positions n = a.lift positions n * b.lift positions n := by
  have hsize : ∀ m : ComplexMatrix ℝ, (m.lift positions n).HasSize (2 ^ (List.range n).length) := by
    intro m
    rw [List.length_range]
    exact .square _ _
  refine eq_of_act_eq List.nodup_range (hsize _) ((hsize a).mul (hsize b)) fun ψ => ?_
  rw [act_mul List.nodup_range (hsize a) (hsize b), act_lift_range hdistinct hrange,
    act_lift_range hdistinct hrange, act_lift_range hdistinct hrange, act_mul hdistinct ha hb]

theorem lift_identity (hdistinct : positions.Nodup) (hrange : ∀ p ∈ positions, p < n) :
    (identity (2 ^ positions.length) : ComplexMatrix ℝ).lift positions n = identity (2 ^ n) := by
  have hidentity : (identity (2 ^ n) : ComplexMatrix ℝ) = identity (2 ^ (List.range n).length) := by
    rw [List.length_range]
  rw [hidentity]
  refine eq_of_act_eq List.nodup_range ?_ (hasSize_identity _) fun ψ => ?_
  · rw [List.length_range]
    exact .square _ _
  · rw [act_lift_range hdistinct hrange, act_identity, act_identity]

/-! ### Positions that are integers -/

variable {positions : List ℤ}

/-- Different positions among `n`. -/
structure DistinctPositions (positions : List ℤ) (n : ℕ) : Prop where
  distinct : positions.Nodup
  inRange : ∀ p ∈ positions, 0 ≤ p ∧ p < n

namespace DistinctPositions

variable (h : DistinctPositions positions n)

include h

theorem map_ofNat_toNat : (positions.map Int.toNat).map Int.ofNat = positions := by
  rw [List.map_map]
  conv_rhs => rw [← List.map_id positions]
  exact List.map_congr_left fun p hp => Int.toNat_of_nonneg (h.inRange p hp).1

theorem nodup_toNat : (positions.map Int.toNat).Nodup :=
  List.Nodup.of_map Int.ofNat (h.map_ofNat_toNat.symm ▸ h.distinct)

theorem toNat_lt : ∀ p ∈ positions.map Int.toNat, p < n := by
  intro p hp
  obtain ⟨q, hq, rfl⟩ := List.mem_map.1 hp
  have := h.inRange q hq
  omega

theorem embed_eq_lift (hm : m.HasSize (2 ^ positions.length)) :
    m.embed positions n = .ok (m.lift (positions.map Int.toNat) n) := by
  have hrows : m.rows = 2 ^ (positions.map Int.toNat).length := by rw [List.length_map, hm.rows]
  have hcols : m.cols = 2 ^ (positions.map Int.toNat).length := by rw [List.length_map, hm.cols]
  have hembed := ComplexMatrix.embed_eq_lift hrows hcols h.nodup_toNat h.toNat_lt
  rwa [h.map_ofNat_toNat] at hembed

end DistinctPositions

/-- A matrix of another size, or positions that are not different and in range, are a wrong value. -/
theorem exists_embed_eq_error (h : ¬ (m.HasSize (2 ^ positions.length) ∧ DistinctPositions positions n)) :
    ∃ f, m.embed positions n = .error f ∧ f.kind = .wrongValue := by
  by_cases hsize : m.rows ≠ 2 ^ positions.length ∨ m.cols ≠ 2 ^ positions.length
  · exact ⟨_, if_pos hsize, rfl⟩
  · rw [not_or, not_not, not_not] at hsize
    have hpositions : arePositions positions n ≠ true := by
      intro htrue
      refine h ⟨⟨hsize.1, hsize.2⟩, ?_⟩
      simp only [arePositions, Bool.and_eq_true, decide_eq_true_eq, List.all_eq_true] at htrue
      exact ⟨htrue.1, htrue.2⟩
    refine ⟨.invalidPositions (Fault.intList positions) (toString n), ?_, rfl⟩
    rw [embed, if_neg (by simpa using hsize), if_neg hpositions]

/-- **Embedding is the tensor embedding, entry by entry.** A matrix of the size of its positions is embedded at
different positions in range: an entry is that of the matrix at the bits which stand at the positions, the first
position being the most significant, if all other bits agree, and zero if some differ. Every other matrix
and every other list of positions is a wrong value. Embedding keeps products and the identity. -/
theorem embed_outcome (positions : List ℤ) (n : ℕ) :
    (∀ m : ComplexMatrix ℝ, m.HasSize (2 ^ positions.length) → DistinctPositions positions n →
      ∃ u, m.embed positions n = .ok u ∧ u.HasEntries (2 ^ n) fun r c =>
        if ∀ p < n, (p : ℤ) ∉ positions → Bits.bit n p r = Bits.bit n p c then
          m.entry (Bits.select n (positions.map Int.toNat) r)
            (Bits.select n (positions.map Int.toNat) c)
        else 0)
      ∧ (∀ m : ComplexMatrix ℝ, ¬ (m.HasSize (2 ^ positions.length) ∧ DistinctPositions positions n) →
        ∃ f, m.embed positions n = .error f ∧ f.kind = .wrongValue)
      ∧ (DistinctPositions positions n →
        (∀ a b : ComplexMatrix ℝ, a.HasSize (2 ^ positions.length) →
          b.HasSize (2 ^ positions.length) → ∃ u v, a.embed positions n = .ok u
            ∧ b.embed positions n = .ok v ∧ (a * b).embed positions n = .ok (u * v))
        ∧ (identity (2 ^ positions.length) : ComplexMatrix ℝ).embed positions n
          = .ok (identity (2 ^ n))) := by
  refine ⟨fun m hm h => ⟨_, h.embed_eq_lift hm, ?_⟩, fun m => exists_embed_eq_error,
    fun h => ⟨fun a b ha hb => ?_, ?_⟩⟩
  · have hmem : ∀ p : ℕ, (p : ℤ) ∈ positions ↔ p ∈ positions.map Int.toNat := by
      intro p
      conv_lhs => rw [← h.map_ofNat_toNat]
      exact List.mem_map_of_injective Int.ofNat_injective
    simpa only [hmem] using hasEntries_lift m (positions.map Int.toNat) n
  · refine ⟨_, _, h.embed_eq_lift ha, h.embed_eq_lift hb, ?_⟩
    rw [h.embed_eq_lift (ha.mul hb), lift_mul h.nodup_toNat h.toNat_lt (by rwa [List.length_map])
      (by rwa [List.length_map])]
  · rw [h.embed_eq_lift (hasSize_identity _)]
    have hidentity := lift_identity h.nodup_toNat h.toNat_lt
    rw [List.length_map] at hidentity
    rw [hidentity]

/-- A controlled bit flip at positions whose order is not its own inverse: the last position is the target. -/
theorem embed_outcome_cyclicPositions :
    (multiControlledNotUnitary 3 : ComplexMatrix ℝ).HasSize 8 ∧ DistinctPositions [1, 3, 0] 4
      ∧ ∃ u, (multiControlledNotUnitary 3 : ComplexMatrix ℝ).embed [1, 3, 0] 4 = .ok u
        ∧ u.HasSize 16 ∧ u.entry 5 13 = 1 ∧ u.entry 5 15 = 0 := by
  have hsize : (multiControlledNotUnitary 3 : ComplexMatrix ℝ).HasSize 8 := ⟨rfl, rfl⟩
  have hpositions : DistinctPositions [1, 3, 0] 4 := ⟨by decide, by decide⟩
  obtain ⟨u, hu, husize, hentry⟩ := (embed_outcome [1, 3, 0] 4).1 _ hsize hpositions
  have hflip : (multiControlledNotUnitary 3 : ComplexMatrix ℝ).entry 6 7 = 1 := by
    rw [multiControlledNotUnitary, rowsAt, entry_square _ (by decide) (by decide), toComplex_delta]
    rfl
  refine ⟨hsize, hpositions, u, hu, husize, ?_, ?_⟩
  · rw [hentry 5 13 (by decide) (by decide), if_pos (by decide)]
    exact hflip
  · rw [hentry 5 15 (by decide) (by decide), if_neg (by decide)]

end CircuitIR.ComplexMatrix
