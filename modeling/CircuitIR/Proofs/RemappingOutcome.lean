import CircuitIR.Proofs.ReachableOperations

/-!
# Outcomes of remapping

A table of integers remaps an operation on a finite set of qubits exactly if every qubit of the set has an
image, no image is negative and no two are equal. Otherwise the remapping fails, and its fault names the least
qubit without an image or, where there is none, the image of the least qubit that spoils the others. The
operation is rebuilt in the order of its fields, so what the rebuilding complains about can be another qubit;
that complaint is only quoted. A circuit is remapped operation by operation up to the first one that fails.
-/

namespace CircuitIR

/-- The content of a field with its qubits sent through a function. -/
def FieldOf.mapQubits {I P : Type} (f : I → I) : FieldOf I P → FieldOf I P
  | qubit q => qubit (f q)
  | qubits qs => qubits (qs.map f)
  | field => field

namespace QubitMap

variable {entries : List (ℤ × ℤ)} {qs : List ℕ} {f : ℕ → ℕ} {target : ℕ → ℤ} {q : ℕ}

/-- The image of a qubit is negative, or another qubit of the list has the same image. -/
def Spoils (entries : List (ℤ × ℤ)) (qs : List ℕ) (q : ℕ) : Prop :=
  ∃ t, lookUp entries q = some t ∧ (t < 0 ∨ ∃ r ∈ qs, r ≠ q ∧ lookUp entries r = some t)

/-- A table without a missing qubit and without one that spoils the others renames the qubits. -/
theorem renames_image (himage : ∀ q ∈ qs, ∃ t, lookUp entries q = some t ∧ 0 ≤ t)
    (hinjective : ∀ q ∈ qs, ∀ r ∈ qs, lookUp entries q = lookUp entries r → q = r) :
    (ofList entries).Renames (image entries) qs := by
  have hentry : ∀ q ∈ qs, lookUp entries q = some ↑(image entries q) := by
    intro q hq
    obtain ⟨t, ht, hnonneg⟩ := himage q hq
    rw [image, ht, Option.getD_some, Int.toNat_of_nonneg hnonneg]
  refine renames_ofList hentry fun q hq r hr heq => hinjective q hq r hr ?_
  rw [hentry q hq, hentry r hr, heq]

theorem one_lt_count_map_iff (hqs : qs.Nodup) (hq : q ∈ qs) :
    1 < (qs.map target).count (target q) ↔ ∃ r ∈ qs, r ≠ q ∧ target r = target q := by
  obtain ⟨before, after, rfl⟩ := List.append_of_mem hq
  rw [List.nodup_middle, List.nodup_cons, List.mem_append, not_or] at hqs
  have hcount : ((before ++ q :: after).map target).count (target q)
      = (before.map target).count (target q) + (after.map target).count (target q) + 1 := by
    rw [List.map_append, List.map_cons, List.count_append, List.count_cons_self, Nat.add_assoc]
  have hothers : ∀ r, r ∈ before ∨ r ∈ after ↔ r ∈ before ++ q :: after ∧ r ≠ q := by
    intro r
    rw [List.mem_append, List.mem_cons]
    constructor
    · rintro (hr | hr)
      · exact ⟨Or.inl hr, fun heq => hqs.1.1 (heq ▸ hr)⟩
      · exact ⟨Or.inr (Or.inr hr), fun heq => hqs.1.2 (heq ▸ hr)⟩
    · rintro ⟨hr | rfl | hr, hne⟩
      · exact Or.inl hr
      · exact absurd rfl hne
      · exact Or.inr hr
  calc 1 < ((before ++ q :: after).map target).count (target q)
      ↔ 0 < (before.map target).count (target q) ∨ 0 < (after.map target).count (target q) := by
        rw [hcount]
        omega
    _ ↔ ∃ r, (r ∈ before ∨ r ∈ after) ∧ target r = target q := by
        rw [List.count_pos_iff, List.count_pos_iff, List.mem_map, List.mem_map, ← exists_or]
        exact exists_congr fun r => or_and_right.symm
    _ ↔ ∃ r ∈ before ++ q :: after, r ≠ q ∧ target r = target q := by
        simp only [hothers, and_assoc]

theorem exists_offendingTarget (hqs : qs.Pairwise (· < ·))
    (hlookUp : ∀ q ∈ qs, lookUp entries q = some (target q)) (hspoils : ∃ q ∈ qs, Spoils entries qs q) :
    ∃ q, IsLeast {q | q ∈ qs ∧ Spoils entries qs q} q
      ∧ OperationOf.offendingTarget (qs.map target) = target q := by
  set p : ℤ → Bool := fun t => t < 0 || 1 < (qs.map target).count t with hp
  have hdistinct : qs.Nodup := hqs.imp Nat.ne_of_lt
  have hmarked : ∀ q ∈ qs, p (target q) = true ↔ Spoils entries qs q := by
    intro q hq
    rw [hp, Bool.or_eq_true, decide_eq_true_iff, decide_eq_true_iff,
      one_lt_count_map_iff hdistinct hq]
    constructor
    · rintro (hneg | ⟨r, hr, hne, heq⟩)
      · exact ⟨_, hlookUp q hq, Or.inl hneg⟩
      · exact ⟨_, hlookUp q hq, Or.inr ⟨r, hr, hne, heq ▸ hlookUp r hr⟩⟩
    · rintro ⟨t, ht, hbad⟩
      obtain rfl : target q = t := Option.some.inj ((hlookUp q hq).symm.trans ht)
      refine hbad.imp_right fun ⟨r, hr, hne, hlookUpR⟩ => ⟨r, hr, hne, ?_⟩
      exact Option.some.inj ((hlookUp r hr).symm.trans hlookUpR)
  have hset : {q | q ∈ qs ∧ (p ∘ target) q = true} = {q | q ∈ qs ∧ Spoils entries qs q} :=
    Set.ext fun q => and_congr_right fun hq => hmarked q hq
  obtain ⟨r, hr, hspoilsR⟩ := hspoils
  obtain ⟨q, hfirst⟩ := Option.isSome_iff_exists.1
    (List.find?_isSome.2 ⟨r, hr, (hmarked r hr).2 hspoilsR⟩ : (qs.find? (p ∘ target)).isSome)
  refine ⟨q, hset ▸ isLeast_of_find? hqs hfirst, ?_⟩
  rw [OperationOf.offendingTarget, List.find?_map]
  change ((qs.find? (p ∘ target)).map target).getD _ = _
  rw [hfirst]
  rfl

end QubitMap

namespace OperationOf

open QubitMap (lookUp Spoils image)

variable {I J P R : Type} {m : QubitMap} {entries : List (ℤ × ℤ)} {qs : List ℕ}

theorem fields_mapIndices_qubits (f : I → I) (op : OperationOf I P) :
    (op.mapIndices f id).fields = op.fields.map (FieldOf.mapQubits f) := by
  cases op <;> rfl

theorem traverseIndices_eq_error {ε : Type} {op : OperationOf I P} {onQubit onCount : String → I → Except ε J}
    {e : ε} (h : op.traverseIndices onQubit onCount = .error e) :
    (∃ s, ∃ q ∈ op.qubits, onQubit s q = .error e)
      ∨ ∃ s, ∃ k ∈ op.counts, onCount s k = .error e := by
  cases op with
  | fixed a q | angle a q θ | reset q =>
      obtain hq | ⟨i, -, h⟩ := bind_eq_error h
      · exact Or.inl ⟨_, q, List.mem_cons_self, hq⟩
      · exact nomatch h
  | pair a c t | controlledPhase c t θ =>
      obtain hc | ⟨i, -, h⟩ := bind_eq_error h
      · exact Or.inl ⟨_, c, List.mem_cons_self, hc⟩
      · obtain ht | ⟨i, -, h⟩ := bind_eq_error h
        · exact Or.inl ⟨_, t, List.mem_cons_of_mem c List.mem_cons_self, ht⟩
        · exact nomatch h
  | interaction a qs θ | multiControlledNot qs | fourier qs s b | call n qs ps =>
      obtain hqs | ⟨i, -, h⟩ := bind_eq_error h
      · obtain ⟨q, hq, hfault⟩ := exists_error_of_mapM hqs
        exact Or.inl ⟨_, q, hq, hfault⟩
      · exact nomatch h
  | globalPhase φ => exact nomatch h
  | setMeasurements k r | repeatedMeasurement r k t | definition t n k o =>
      obtain hk | ⟨i, -, h⟩ := bind_eq_error h
      · exact Or.inr ⟨_, k, List.mem_cons_self, hk⟩
      · exact nomatch h
  | measure q r k =>
      obtain hq | ⟨i, -, h⟩ := bind_eq_error h
      · exact Or.inl ⟨_, q, List.mem_cons_self, hq⟩
      · obtain hk | ⟨i, -, h⟩ := bind_eq_error h
        · exact Or.inr ⟨_, k, List.mem_cons_self, hk⟩
        · exact nomatch h

/-- What is wrong with a draft without negative counts is wrong with its qubits. -/
theorem kind_of_validate_eq_error {draft : Draft R} {e : Fault} (hcounts : ∀ k ∈ draft.counts, 0 ≤ k)
    (h : draft.validate = .error e) : e.kind = .initialization := by
  obtain h | ⟨op, -, h⟩ := bind_eq_error h
  · obtain ⟨s, q, -, hfault⟩ | ⟨s, k, hk, hfault⟩ := traverseIndices_eq_error h
    · rw [checkQubit] at hfault
      split at hfault
      · rw [← Except.error.inj hfault]
        rfl
      · exact nomatch hfault
    · rw [checkCount, if_neg (not_lt.2 (hcounts k hk))] at hfault
      exact nomatch hfault
  · split at h
    · exact nomatch h
    · rw [← Except.error.inj h]
      rfl

variable {op : Operation R} {target : ℕ → ℤ} {e : Fault}

/-- Why a table does not remap an operation on a set of qubits. -/
inductive Unmappable (op : Operation R) (entries : List (ℤ × ℤ)) (qs : List ℕ) : Fault → Prop
  | missing (q : ℕ) (hleast : IsLeast {q | q ∈ qs ∧ lookUp entries q = none} q) :
      Unmappable op entries qs (.unmappedQubit (.index q))
  | spoiled (q : ℕ) (t : ℤ) (e : Fault) (hcovered : ∀ q ∈ qs, lookUp entries q ≠ none)
      (hleast : IsLeast {q | q ∈ qs ∧ Spoils entries qs q} q) (ht : lookUp entries q = some t)
      (hinvalid : (op.mapIndices (fun q : ℕ => (lookUp entries q).getD 0) Int.ofNat).validate
        = .error e) :
      Unmappable op entries qs (.invalidTarget op.name t e.message)

theorem Unmappable.kind_eq {f : Fault} (h : op.Unmappable entries qs f) : f.kind = .remapping := by
  cases h <;> rfl

theorem result_remap (hinvolved : op.involved = .finite qs) : (op.remap m).result
    = (m.checkTotal (qs.map Int.ofNat)).result >>= fun _ => op.remapCovered m (qs.map Int.ofNat) := by
  unfold remap
  rw [hinvolved]
  change (m.checkTotal (qs.map Int.ofNat) >>= fun _ =>
    Traced.ofExcept (op.remapCovered m (qs.map Int.ofNat))).result = _
  rw [Traced.result_bind]
  rfl

/-- If the images of the qubits do not make an operation, the fault of remapping quotes why. -/
theorem remapCovered_of_invalid (hsub : ∀ q ∈ op.qubits, q ∈ qs)
    (hlookUp : ∀ q ∈ qs, lookUp entries q = some (target q))
    (hinvalid : (op.mapIndices target Int.ofNat).validate = .error e) :
    op.remapCovered (.ofList entries) (qs.map Int.ofNat)
      = .error (.invalidTarget op.name (offendingTarget (qs.map target)) e.message) := by
  have hkind : e.kind = .initialization := by
    refine kind_of_validate_eq_error (fun k hk => ?_) hinvalid
    rw [counts_mapIndices] at hk
    obtain ⟨n, -, rfl⟩ := List.mem_map.1 hk
    exact Int.natCast_nonneg n
  have htargets : (qs.map Int.ofNat).mapM (fun q => do
      let target ← (QubitMap.ofList entries).target q
      target.asQubit) = .ok (qs.map target) := by
    rw [List.mapM_map]
    refine mapM_eq_ok fun q hq => ?_
    change (QubitMap.ofList entries).target q >>= _ = _
    rw [QubitMap.target_ofList_iff.2 (hlookUp q hq)]
    rfl
  obtain ⟨looked, hlooked, hdraft⟩ :=
    bind_eq_ok.1 (draft_ofList fun q hq => hlookUp q (hsub q hq))
  rw [remapCovered, hlooked, ok_bind, hdraft, ok_bind, hinvalid]
  simp only [hkind, htargets, ok_bind]
  rfl

/-- A covering table that does not remap has a qubit that spoils the others. -/
theorem exists_spoils_of_invalid (hdistinct : op.qubits.Nodup) (hsub : ∀ q ∈ op.qubits, q ∈ qs)
    (hlookUp : ∀ q ∈ qs, lookUp entries q = some (target q))
    (hinvalid : (op.mapIndices target Int.ofNat).validate = .error e) :
    ∃ q ∈ qs, Spoils entries qs q := by
  by_contra hnone
  push Not at hnone
  have hvalid : ∃ op', (op.mapIndices target Int.ofNat).validate = .ok op' := by
    rw [exists_validate_iff, qubits_mapIndices, counts_mapIndices]
    refine ⟨List.forall_mem_map.2 fun q hq => ?_, ?_, hdistinct.map_on fun q hq r hr heq => ?_⟩
    · by_contra hneg
      exact hnone q (hsub q hq) ⟨_, hlookUp q (hsub q hq), Or.inl (not_le.1 hneg)⟩
    · exact List.forall_mem_map.2 fun k _ => Int.natCast_nonneg k
    · by_contra hne
      refine hnone q (hsub q hq) ⟨_, hlookUp q (hsub q hq), Or.inr ⟨r, hsub r hr, Ne.symm hne, ?_⟩⟩
      rw [heq, hlookUp r (hsub r hr)]
  obtain ⟨op', hop'⟩ := hvalid
  rw [hinvalid] at hop'
  exact nomatch hop'

theorem exists_remap_iff (hinvolved : op.involved = .finite qs) (hdistinct : op.qubits.Nodup) :
    (∃ op', (op.remap (.ofList entries)).result = .ok op')
      ↔ (∀ q ∈ qs, ∃ t, lookUp entries q = some t ∧ 0 ≤ t)
        ∧ ∀ q ∈ qs, ∀ r ∈ qs, lookUp entries q = lookUp entries r → q = r := by
  have hfinite := involved_eq_finite hinvolved
  obtain rfl : qs = Involved.ofList op.qubits := Involved.finite.inj (hinvolved.symm.trans hfinite)
  simp only [Involved.mem_ofList]
  constructor
  · rintro ⟨op', h⟩
    obtain ⟨-, hrenames, -⟩ := remap_eq_ok hfinite h
    have hentry : ∀ q ∈ op.qubits, lookUp entries q = some ↑(image entries q) := fun q hq =>
      QubitMap.target_ofList_iff.1 (hrenames.target q hq)
    refine ⟨fun q hq => ⟨_, hentry q hq, Int.natCast_nonneg _⟩, fun q hq r hr heq => ?_⟩
    rw [hentry q hq, hentry r hr, Option.some_inj, Int.natCast_inj] at heq
    exact hrenames.injective q hq r hr heq
  · rintro ⟨himage, hinjective⟩
    exact ⟨_, remap_result hfinite hdistinct (QubitMap.renames_image himage hinjective)⟩

theorem unmappable_of_covers {f : Fault} (hdistinct : op.qubits.Nodup)
    (hsorted : qs.Pairwise (· < ·)) (hsub : ∀ q ∈ op.qubits, q ∈ qs)
    (hcovered : ∀ q ∈ qs, lookUp entries q ≠ none)
    (h : op.remapCovered (.ofList entries) (qs.map Int.ofNat) = .error f) :
    op.Unmappable entries qs f := by
  set target : ℕ → ℤ := fun q => (lookUp entries q).getD 0 with htarget
  have hlookUp : ∀ q ∈ qs, lookUp entries q = some (target q) := by
    intro q hq
    obtain ⟨t, ht⟩ := Option.ne_none_iff_exists'.1 (hcovered q hq)
    simp only [htarget, ht, Option.getD_some]
  cases hdraft : (op.mapIndices target Int.ofNat).validate with
  | ok op' =>
      -- an operation that can be rebuilt is remapped
      obtain ⟨looked, hlooked, hread⟩ :=
        bind_eq_ok.1 (draft_ofList fun q hq => hlookUp q (hsub q hq))
      rw [remapCovered, hlooked, ok_bind, hread, ok_bind, hdraft] at h
      cases h
  | error e =>
      obtain ⟨q, hleast, hoffending⟩ := QubitMap.exists_offendingTarget hsorted hlookUp
        (exists_spoils_of_invalid hdistinct hsub hlookUp hdraft)
      rw [remapCovered_of_invalid hsub hlookUp hdraft, hoffending] at h
      obtain rfl := Except.error.inj h
      exact .spoiled q _ e hcovered hleast (hlookUp q hleast.1.1) hdraft

theorem unmappable_of_remap_eq_error {f : Fault} (hinvolved : op.involved = .finite qs)
    (hdistinct : op.qubits.Nodup) (h : (op.remap (.ofList entries)).result = .error f) :
    op.Unmappable entries qs f := by
  have hfinite := involved_eq_finite hinvolved
  obtain rfl : qs = Involved.ofList op.qubits := Involved.finite.inj (hinvolved.symm.trans hfinite)
  set qs := Involved.ofList op.qubits with hqs
  have hsorted : qs.Pairwise (· < ·) := Involved.pairwise_ofList op.qubits
  rw [result_remap hinvolved, QubitMap.result_checkTotal_ofList, List.find?_map] at h
  cases hfirst : qs.find? ((fun q => (lookUp entries q).isNone) ∘ Int.ofNat) with
  | some q =>
      rw [hfirst] at h
      obtain rfl := Except.error.inj h
      have hset : {q | q ∈ qs ∧ ((fun q => (lookUp entries q).isNone) ∘ Int.ofNat) q = true}
          = {q | q ∈ qs ∧ lookUp entries q = none} :=
        Set.ext fun q => and_congr_right fun _ => Option.isNone_iff_eq_none
      exact .missing q (hset ▸ isLeast_of_find? hsorted hfirst)
  | none =>
      rw [hfirst] at h
      refine unmappable_of_covers hdistinct hsorted (fun q => Involved.mem_ofList.2) ?_ h
      intro q hq hnone
      exact List.find?_eq_none.1 hfirst q hq (Option.isNone_iff_eq_none.2 hnone)

end OperationOf

namespace Circuit

open QubitMap (lookUp image)

variable {R : Type}

theorem remap_eq_error_iff {c : Circuit R} {m : QubitMap} {f : Fault} : (c.remap m).result = .error f
    ↔ ∃ before op after, c.operations = before ++ op :: after
      ∧ (∀ op' ∈ before, ∃ made, (op'.remap m).result = .ok made)
      ∧ (op.remap m).result = .error f := by
  rw [← mapM_eq_error_iff, remap, Traced.result_bind, Traced.result_mapM]
  cases c.operations.mapM fun op => (op.remap m).result with
  | ok ops => simp only [ok_bind, Traced.result_pure, reduceCtorEq]
  | error e => simp only [error_bind, Except.error.injEq]

/-- **When remapping succeeds, and how it fails.** An operation on a finite set of different qubits is remapped
by a table of integers exactly if every qubit of the set has an image, no image is negative and different
qubits have different images. The result is of the same kind and has every qubit replaced by its image, field
by field, and all else as it was. Every other table fails with a fault of remapping that names the least qubit
without an image, or else the image of the least qubit whose image is negative or shared. A circuit is remapped
operation by operation, or it fails with the fault of the first operation that does. -/
theorem remap_outcome :
    (∀ {op : Operation R} {qs : List ℕ} (entries : List (ℤ × ℤ)), op.involved = .finite qs →
        op.qubits.Nodup →
        ((∃ op', (op.remap (.ofList entries)).result = .ok op')
            ↔ (∀ q ∈ qs, ∃ t, lookUp entries q = some t ∧ 0 ≤ t)
              ∧ ∀ q ∈ qs, ∀ r ∈ qs, lookUp entries q = lookUp entries r → q = r)
          ∧ (∀ op', (op.remap (.ofList entries)).result = .ok op' →
            op'.variant = op.variant ∧ op'.fields = op.fields.map (FieldOf.mapQubits (image entries))
              ∧ ∀ q ∈ qs, lookUp entries q = some ↑(image entries q))
          ∧ ∀ f, (op.remap (.ofList entries)).result = .error f →
            f.kind = .remapping ∧ op.Unmappable entries qs f)
      ∧ ∀ (c : Circuit R) (m : QubitMap),
        (∀ d, (c.remap m).result = .ok d
            ↔ List.Forall₂ (fun op op' => (op.remap m).result = .ok op') c.operations d.operations)
          ∧ ∀ f, (c.remap m).result = .error f
            ↔ ∃ before op after, c.operations = before ++ op :: after
              ∧ (∀ op' ∈ before, ∃ made, (op'.remap m).result = .ok made)
              ∧ (op.remap m).result = .error f := by
  constructor
  · intro op qs entries hinvolved hdistinct
    refine ⟨OperationOf.exists_remap_iff hinvolved hdistinct, fun op' h => ?_, fun f h => ?_⟩
    · have hfinite := OperationOf.involved_eq_finite hinvolved
      obtain rfl : qs = _ := Involved.finite.inj (hinvolved.symm.trans hfinite)
      obtain ⟨-, hrenames, rfl⟩ := OperationOf.remap_eq_ok hfinite h
      refine ⟨OperationOf.variant_mapIndices _ _ op, OperationOf.fields_mapIndices_qubits _ op,
        fun q hq => ?_⟩
      exact QubitMap.target_ofList_iff.1 (hrenames.target q (Involved.mem_ofList.1 hq))
    · have hunmappable := OperationOf.unmappable_of_remap_eq_error hinvolved hdistinct h
      exact ⟨hunmappable.kind_eq, hunmappable⟩
  · intro c m
    exact ⟨fun d => remap_eq_ok_iff, fun f => remap_eq_error_iff⟩

/-- A flip with three controls and a phase, neither in the order of its qubits. -/
def unorderedQubits : Circuit Float where
  operations := [.controlledPhase 7 2 (.symbolic (.symbol "x")), .multiControlledNot [7, 2, 0, 5]]

theorem remap_outcome_unorderedQubits :
    (∃ op', ((.controlledPhase 7 2 (.symbolic (.symbol "x")) : Operation Float).remap
          (.ofList [(2, 7), (7, 2), (0, -1)])).result = .ok op'
        ∧ op'.fields = [.qubit 2, .qubit 7, .parameter (.symbolic (.symbol "x"))])
      ∧ (unorderedQubits.remap (.ofList [(7, 3), (5, 3), (2, 1)])).result
        = .error (.unmappedQubit (.index 0))
      ∧ ∃ reason, (unorderedQubits.remap (.ofList [(7, 3), (2, 0), (0, 3), (5, -1)])).result
          = .error (.invalidTarget "MultiQubitCNOT" 3 reason)
        ∧ IsLeast {q | q ∈ [0, 2, 5, 7]
          ∧ QubitMap.Spoils [(7, 3), (2, 0), (0, 3), (5, -1)] [0, 2, 5, 7] q} 0 := by
  refine ⟨?_, ?_, ?_⟩
  · have hinvolved : (.controlledPhase 7 2 (.symbolic (.symbol "x")) : Operation Float).involved
        = .finite [2, 7] := rfl
    obtain ⟨hexists, hmade, -⟩ :=
      remap_outcome.1 [(2, 7), (7, 2), (0, -1)] hinvolved (by decide)
    obtain ⟨op', hop'⟩ := hexists.2 ⟨by decide, by decide⟩
    exact ⟨op', hop', (hmade op' hop').2.1⟩
  · -- the first gate is remapped, the second one is not
    exact ((remap_outcome.2 unorderedQubits _).2 _).2
      ⟨[.controlledPhase 7 2 (.symbolic (.symbol "x"))], .multiControlledNot [7, 2, 0, 5], [], rfl,
        List.forall_mem_singleton.2 ⟨_, rfl⟩, rfl⟩
  · have hinvolved : (.multiControlledNot [7, 2, 0, 5] : Operation Float).involved
        = .finite [0, 2, 5, 7] := rfl
    obtain ⟨-, -, hfault⟩ :=
      remap_outcome.1 [(7, 3), (2, 0), (0, 3), (5, -1)] hinvolved (by decide)
    have hresult : ((.multiControlledNot [7, 2, 0, 5] : Operation Float).remap
        (.ofList [(7, 3), (2, 0), (0, 3), (5, -1)])).result = .error (.invalidTarget _ 3 _) := rfl
    obtain ⟨-, hunmappable⟩ := hfault _ hresult
    refine ⟨_, ((remap_outcome.2 unorderedQubits _).2 _).2
      ⟨[.controlledPhase 7 2 (.symbolic (.symbol "x"))], .multiControlledNot [7, 2, 0, 5], [], rfl,
        List.forall_mem_singleton.2 ⟨_, rfl⟩, hresult⟩, ?_⟩
    generalize hfault : Fault.invalidTarget _ 3 _ = f at hunmappable
    cases hunmappable with
    | missing q hleast => exact nomatch hfault
    | spoiled q t e hcovered hleast ht hinvalid =>
        obtain rfl : q = 0 := Nat.le_zero.1
          (hleast.2 ⟨by decide, 3, rfl, Or.inr ⟨7, by decide, by decide, rfl⟩⟩)
        exact hleast

end Circuit

end CircuitIR
