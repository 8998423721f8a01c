import CircuitIR.Proofs.DecomposableCircuits
import CircuitIR.Proofs.FreeSymbols
import CircuitIR.Proofs.SubstitutionOutcome
import CircuitIR.Register.Basic

/-!
# Operations that can be reached

Operations are built from values or decoded from records, and the passes make operations from operations.
Each of these steps leaves the qubits different and the parameters reduced (`IsSound`), so this holds of all
operations that any sequence of steps makes. As drafts they pass validation, which negative qubits and counts
do not.
-/

namespace CircuitIR

namespace OperationOf

variable {I J P R : Type}

/-- The numbers of measurements, indices and lengths in the fields of an operation. -/
def counts : OperationOf I P → List I
  | setMeasurements k _ => [k]
  | repeatedMeasurement _ k _ => [k]
  | measure _ _ k => [k]
  | definition _ _ k _ => [k]
  | _ => []

theorem counts_mapIndices (f g : I → J) (op : OperationOf I P) :
    (op.mapIndices f g).counts = op.counts.map g := by
  cases op <;> rfl

theorem mapIndices_congr_counts {op : OperationOf I P} {f g g' : I → J}
    (h : ∀ k ∈ op.counts, g k = g' k) : op.mapIndices f g = op.mapIndices f g' := by
  cases op with
  | setMeasurements k | repeatedMeasurement _ k | measure _ _ k | definition _ _ k =>
      rw [mapIndices, h k List.mem_cons_self, mapIndices]
  | _ => rfl

/-- **Validation accepts** the drafts without negative qubits and counts on different qubits. -/
theorem exists_validate_iff {draft : Draft R} : (∃ op, draft.validate = .ok op)
    ↔ (∀ q ∈ draft.qubits, 0 ≤ q) ∧ (∀ k ∈ draft.counts, 0 ≤ k) ∧ draft.qubits.Nodup := by
  constructor
  · rintro ⟨op, h⟩
    obtain ⟨hdistinct, rfl⟩ := validate_eq_ok h
    rw [qubits_mapIndices, counts_mapIndices]
    refine ⟨?_, ?_, hdistinct.map Int.ofNat_injective⟩
    · exact List.forall_mem_map.2 fun q _ => Int.natCast_nonneg q
    · exact List.forall_mem_map.2 fun k _ => Int.natCast_nonneg k
  · rintro ⟨hqubits, hcounts, hdistinct⟩
    have hself : draft.mapIndices (fun q => Int.ofNat q.toNat) (fun k => Int.ofNat k.toNat)
        = draft := by
      calc draft.mapIndices (fun q => Int.ofNat q.toNat) (fun k => Int.ofNat k.toNat)
          = draft.mapIndices id (fun k => Int.ofNat k.toNat) :=
            mapIndices_congr fun q hq => Int.toNat_of_nonneg (hqubits q hq)
        _ = draft.mapIndices id id :=
            mapIndices_congr_counts fun k hk => Int.toNat_of_nonneg (hcounts k hk)
        _ = draft := mapIndices_id draft
    have hnarrowed : (draft.qubits.map Int.toNat).Nodup := by
      refine hdistinct.map_on fun q hq r hr heq => ?_
      rw [← Int.toNat_of_nonneg (hqubits q hq), ← Int.toNat_of_nonneg (hqubits r hr), heq]
    exact ⟨_, hself ▸ validate_mapIndices draft Int.toNat Int.toNat hnarrowed⟩

/-- What every step that makes operations brings about. -/
structure IsSound (op : Operation R) : Prop where
  distinct : op.qubits.Nodup
  reduced : ∀ p ∈ op.parameters, p.IsReduced

theorem isParametrized_iff {op : Operation R} (h : ∀ p ∈ op.parameters, p.IsReduced) :
    op.isParametrized = true ↔ ∃ p ∈ op.parameters, p.symbols ≠ [] := by
  rw [isParametrized, List.any_eq_true]
  constructor
  · rintro ⟨p, hp, hsymbolic⟩
    exact ⟨p, hp, (h p hp).isSymbolic_iff.1 hsymbolic⟩
  · rintro ⟨p, hp, hsymbols⟩
    exact ⟨p, hp, (h p hp).isSymbolic_iff.2 hsymbols⟩

theorem IsSound.remap {op op' : Operation R} {m : QubitMap} (h : op.IsSound)
    (hop : (op.remap m).result = .ok op') : op'.IsSound := by
  obtain ⟨-, hparameters, hdistinct⟩ := remap_keeps hop
  exact ⟨hdistinct, hparameters ▸ h.reduced⟩

theorem IsSound.substitute {op op' : Operation Float} {r : Resolver} (h : op.IsSound)
    (hop : (op.substitute r).result = .ok op') : op'.IsSound := by
  obtain ⟨hconcrete, -, hqubits⟩ := substitute_eq_ok hop
  rw [isParametrized, List.any_eq_false] at hconcrete
  refine ⟨hqubits ▸ h.distinct, fun p hp => ?_⟩
  exact Parameter.isReduced_of_isSymbolic_eq_false (Bool.eq_false_iff.2 (hconcrete p hp))

variable [Scalar R]

theorem IsSound.decompose {op : Operation R} {gates : List (Operation R)} (h : op.IsSound)
    (hgates : op.decompose.result = .ok gates) : ∀ gate ∈ gates, gate.IsSound := by
  intro gate hgate
  have hsmall := small_elementary h.distinct (decompose_eq_ok hgates) gate hgate
  refine ⟨hsmall.nodup, fun p hp => ?_⟩
  by_cases hsymbolic : p.isSymbolic = true
  · exact h.reduced p (hsmall.mem_parameters p hp hsymbolic)
  · exact Parameter.isReduced_of_isSymbolic_eq_false (Bool.eq_false_iff.2 hsymbolic)

theorem IsSound.expand {op : Operation R} {gates : List (Operation R)} (h : op.IsSound)
    (hgates : (Circuit.expand op).result = .ok gates) : ∀ gate ∈ gates, gate.IsSound := by
  rw [Circuit.expand] at hgates
  split at hgates
  · exact h.decompose hgates
  · obtain rfl := Except.ok.inj hgates
    exact List.forall_mem_singleton.2 h

end OperationOf

open OperationOf (IsSound)

namespace Variant

variable {v : Variant} {op : Operation Float}

theorem isSound_of_construct {values : List (Option Datum)}
    (h : (v.construct values).result = .ok op) : op.IsSound := by
  obtain ⟨hdistinct, contents, hfields, hcontents⟩ := construct_eq_ok h
  have hreduced : ∀ content ∈ contents, ∀ p ∈ content.parameterList, p.IsReduced :=
    forall_of_mapM_eq_ok (fun e _ _ => isReduced_of_fieldContent) hcontents
  have hparameters : op.parameters = contents.flatMap FieldOf.parameterList := by
    rw [← hfields, OperationOf.flatMap_parameterList, OperationOf.toDraft_eq_mapIndices,
      OperationOf.parameters_mapIndices]
  refine ⟨hdistinct, fun p hp => ?_⟩
  rw [hparameters, List.mem_flatMap] at hp
  obtain ⟨content, hcontent, hp⟩ := hp
  exact hreduced content hcontent p hp

theorem isSound_of_make {args : List Datum} {named : List (String × Datum)}
    (h : (v.make args named).result = .ok op) : op.IsSound := by
  obtain ⟨values, -, h⟩ := Traced.bind_result_eq_ok.1 h
  exact isSound_of_construct h

theorem isSound_of_decode {record : Datum} (h : (v.decode record).result = .ok op) : op.IsSound := by
  unfold decode at h
  split at h
  · dsimp only at h
    split at h
    · obtain ⟨shown, -, h⟩ := Traced.bind_result_eq_ok.1 h
      obtain ⟨_, h, -⟩ := Traced.bind_result_eq_ok.1 h
      exact nomatch h
    · exact isSound_of_make h
  · exact nomatch h

end Variant

namespace Record

variable {record : Datum}

theorem isSound_of_decodeOperation {op : Operation Float}
    (h : (decodeOperation record).result = .ok op) : op.IsSound := by
  unfold decodeOperation at h
  split at h
  · split at h
    · exact nomatch h
    · next name _ =>
        obtain ⟨⟨⟩, -, h⟩ := Traced.bind_result_eq_ok.1 h
        cases name with
        | text s =>
            dsimp only at h
            split at h
            · exact Variant.isSound_of_decode h
            · obtain ⟨shown, -, h⟩ := Traced.bind_result_eq_ok.1 h
              obtain ⟨⟨⟩, -, h⟩ := Traced.bind_result_eq_ok.1 h
              exact nomatch h
        | _ =>
            obtain ⟨shown, -, h⟩ := Traced.bind_result_eq_ok.1 h
            obtain ⟨⟨⟩, -, h⟩ := Traced.bind_result_eq_ok.1 h
            exact nomatch h
  · exact nomatch h

theorem isSound_of_decodeCircuit {c : Circuit Float} (h : (decodeCircuit record).result = .ok c) :
    ∀ op ∈ c.operations, op.IsSound := by
  unfold decodeCircuit at h
  split at h
  · split at h
    · exact nomatch h
    · obtain ⟨records, -, h⟩ := Traced.bind_result_eq_ok.1 h
      obtain ⟨ops, hops, h⟩ := Traced.bind_result_eq_ok.1 h
      obtain rfl := Except.ok.inj h
      rw [Traced.result_mapM] at hops
      exact forall_of_mapM_eq_ok (fun _ _ _ => isSound_of_decodeOperation) hops
  · exact nomatch h

theorem isSound_of_decodeRegister {reg : Register Float}
    (h : (decodeRegister record).result = .ok reg) :
    ∀ c ∈ reg.constant.toList ++ reg.circuits, ∀ op ∈ c.operations, op.IsSound := by
  unfold decodeRegister at h
  split at h
  · -- the constant circuit is there or not, the measurement circuits follow
    have hcircuits : ∀ {constant : Option (Circuit Float)} {d : Datum},
        (∀ c ∈ constant.toList, ∀ op ∈ c.operations, op.IsSound) →
        (do
          let records ← (d.elements : Traced (List Datum))
          let circuits ← records.mapM decodeCircuit
          return ⟨constant, circuits⟩ : Traced (Register Float)).result = .ok reg →
        ∀ c ∈ reg.constant.toList ++ reg.circuits, ∀ op ∈ c.operations, op.IsSound := by
      intro constant d hconstant h
      obtain ⟨records, -, h⟩ := Traced.bind_result_eq_ok.1 h
      obtain ⟨circuits, hcircuits, h⟩ := Traced.bind_result_eq_ok.1 h
      obtain rfl := Except.ok.inj h
      rw [Traced.result_mapM] at hcircuits
      exact List.forall_mem_append.2 ⟨hconstant,
        forall_of_mapM_eq_ok (fun _ _ _ => isSound_of_decodeCircuit) hcircuits⟩
    have hnone : ∀ c ∈ (none : Option (Circuit Float)).toList, ∀ op ∈ c.operations, op.IsSound :=
      fun _ hc => absurd hc List.not_mem_nil
    dsimp only at h
    split at h
    · exact hcircuits hnone h
    · exact hcircuits hnone h
    · obtain ⟨c, hc, h⟩ := Traced.bind_result_eq_ok.1 h
      refine hcircuits (fun c' hc' => ?_) h
      rw [List.mem_singleton.1 hc']
      exact isSound_of_decodeCircuit hc
  · exact nomatch h

end Record

namespace Circuit

variable {c c' : Circuit Float}

theorem isSound_of_remap {m : QubitMap} (h : ∀ op ∈ c.operations, op.IsSound)
    (hc : (c.remap m).result = .ok c') : ∀ op ∈ c'.operations, op.IsSound :=
  forall_of_mapM_eq_ok (fun op hop _ hremap => (h op hop).remap hremap)
    (mapM_eq_ok_iff.2 (remap_eq_ok_iff.1 hc))

theorem isSound_of_substitute {r : Resolver} (h : ∀ op ∈ c.operations, op.IsSound)
    (hc : (c.substitute r).result = .ok c') : ∀ op ∈ c'.operations, op.IsSound :=
  forall_of_mapM_eq_ok (fun op hop _ hmade => (h op hop).substitute hmade)
    (mapM_eq_ok_iff.2 (substitute_eq_ok_iff.1 hc))

theorem isSound_of_decompose (h : ∀ op ∈ c.operations, op.IsSound)
    (hc : c.decompose.result = .ok c') : ∀ op ∈ c'.operations, op.IsSound := by
  obtain ⟨parts, hparts, hflat⟩ := decompose_eq_ok_iff.1 hc
  have hsound : ∀ gates ∈ parts, ∀ gate ∈ gates, gate.IsSound :=
    forall_of_mapM_eq_ok (fun op hop _ hgates => (h op hop).expand hgates)
      (mapM_eq_ok_iff.2 hparts)
  intro op hop
  rw [hflat, List.mem_flatten] at hop
  obtain ⟨gates, hgates, hgate⟩ := hop
  exact hsound gates hgates op hgate

end Circuit

namespace Register

variable {reg reg' : Register Float} {r : Resolver}

theorem substituteAt_eq_ok {location : String} {c c' : Circuit Float}
    (h : (substituteAt location c r).result = .ok c') : (c.substitute r).result = .ok c' := by
  unfold substituteAt at h
  dsimp only at h
  split at h
  · exact h
  · split at h
    · exact h
    · exact nomatch h

theorem exists_circuit_of_substitute (h : (reg.substitute r).result = .ok reg') :
    ∀ c' ∈ reg'.constant.toList ++ reg'.circuits, ∃ c ∈ reg.constant.toList ++ reg.circuits,
      (c.substitute r).result = .ok c' := by
  obtain ⟨constant, hconstant, h⟩ := Traced.bind_result_eq_ok.1 h
  obtain ⟨circuits, hcircuits, h⟩ := Traced.bind_result_eq_ok.1 h
  obtain rfl := Except.ok.inj h
  rw [Traced.result_mapM] at hcircuits
  refine List.forall_mem_append.2 ⟨fun c' hc' => ?_, ?_⟩
  · cases hreg : reg.constant with
    | none =>
        rw [hreg] at hconstant
        obtain rfl : none = constant := Except.ok.inj hconstant
        exact absurd hc' List.not_mem_nil
    | some c =>
        rw [hreg] at hconstant
        obtain ⟨c'', hc'', hconstant⟩ := Traced.bind_result_eq_ok.1 hconstant
        obtain rfl : some c'' = constant := Except.ok.inj hconstant
        obtain rfl := List.mem_singleton.1 hc'
        exact ⟨c, List.mem_append_left _ List.mem_cons_self, substituteAt_eq_ok hc''⟩
  · refine forall_of_mapM_eq_ok (fun e he c' hc' => ?_) hcircuits
    exact ⟨e.1, List.mem_append_right _ (List.fst_mem_of_mem_zipIdx he), substituteAt_eq_ok hc'⟩

end Register

/-- The operations that constructors, records and passes make, in any order. -/
inductive OperationOf.Reachable : Operation Float → Prop
  | make {v : Variant} {args : List Datum} {named : List (String × Datum)} {op : Operation Float}
      (h : (v.make args named).result = .ok op) : Reachable op
  | decode {v : Variant} {record : Datum} {op : Operation Float}
      (h : (v.decode record).result = .ok op) : Reachable op
  | decodeOperation {record : Datum} {op : Operation Float}
      (h : (Record.decodeOperation record).result = .ok op) : Reachable op
  | decodeCircuit {record : Datum} {c : Circuit Float} {op : Operation Float}
      (h : (Record.decodeCircuit record).result = .ok c) (hop : op ∈ c.operations) : Reachable op
  | decodeRegister {record : Datum} {reg : Register Float} {c : Circuit Float} {op : Operation Float}
      (h : (Record.decodeRegister record).result = .ok reg)
      (hc : c ∈ reg.constant.toList ++ reg.circuits) (hop : op ∈ c.operations) : Reachable op
  | remap {op op' : Operation Float} {m : QubitMap} (hop : Reachable op)
      (h : (op.remap m).result = .ok op') : Reachable op'
  | remapCircuit {c c' : Circuit Float} {m : QubitMap} {op : Operation Float}
      (hc : ∀ op ∈ c.operations, Reachable op) (h : (c.remap m).result = .ok c')
      (hop : op ∈ c'.operations) : Reachable op
  | substitute {op op' : Operation Float} {r : Resolver} (hop : Reachable op)
      (h : (op.substitute r).result = .ok op') : Reachable op'
  | substituteCircuit {c c' : Circuit Float} {r : Resolver} {op : Operation Float}
      (hc : ∀ op ∈ c.operations, Reachable op) (h : (c.substitute r).result = .ok c')
      (hop : op ∈ c'.operations) : Reachable op
  | substituteRegister {reg reg' : Register Float} {r : Resolver} {c' : Circuit Float}
      {op : Operation Float}
      (hreg : ∀ c ∈ reg.constant.toList ++ reg.circuits, ∀ op ∈ c.operations, Reachable op)
      (h : (reg.substitute r).result = .ok reg')
      (hc : c' ∈ reg'.constant.toList ++ reg'.circuits) (hop : op ∈ c'.operations) : Reachable op
  | decompose {op gate : Operation Float} {gates : List (Operation Float)} (hop : Reachable op)
      (h : op.decompose.result = .ok gates) (hgate : gate ∈ gates) : Reachable gate
  | decomposeCircuit {c c' : Circuit Float} {op : Operation Float}
      (hc : ∀ op ∈ c.operations, Reachable op) (h : c.decompose.result = .ok c')
      (hop : op ∈ c'.operations) : Reachable op

namespace OperationOf

variable {op : Operation Float}

theorem Reachable.isSound (h : op.Reachable) : op.IsSound := by
  induction h with
  | make h => exact Variant.isSound_of_make h
  | decode h => exact Variant.isSound_of_decode h
  | decodeOperation h => exact Record.isSound_of_decodeOperation h
  | decodeCircuit h hop => exact Record.isSound_of_decodeCircuit h _ hop
  | decodeRegister h hc hop => exact Record.isSound_of_decodeRegister h _ hc _ hop
  | remap _ h ih => exact ih.remap h
  | remapCircuit _ h hop ih => exact Circuit.isSound_of_remap ih h _ hop
  | substitute _ h ih => exact ih.substitute h
  | substituteCircuit _ h hop ih => exact Circuit.isSound_of_substitute ih h _ hop
  | substituteRegister _ h hc hop ih =>
      obtain ⟨c, hc, hmade⟩ := Register.exists_circuit_of_substitute h _ hc
      exact Circuit.isSound_of_substitute (ih c hc) hmade _ hop
  | decompose _ h hgate ih => exact ih.decompose h _ hgate
  | decomposeCircuit _ h hop ih => exact Circuit.isSound_of_decompose ih h _ hop

/-- **The invariant of reachable operations.** The qubits of an operation that any sequence of steps makes are
different and, like its counts, not negative; its parameters are numbers or expressions with a free symbol;
and it is parametrized exactly if some parameter has a free symbol. -/
theorem Reachable.invariant (h : op.Reachable) :
    op.toDraft.qubits.Nodup ∧ (∀ q ∈ op.toDraft.qubits, 0 ≤ q) ∧ (∀ k ∈ op.toDraft.counts, 0 ≤ k)
      ∧ (∀ p ∈ op.parameters, (∃ x, p = .number x) ∨ ∃ e, p = .symbolic e ∧ e.symbols ≠ [])
      ∧ (op.isParametrized = true ↔ ∃ p ∈ op.parameters, p.symbols ≠ []) := by
  obtain ⟨hdistinct, hreduced⟩ := h.isSound
  obtain ⟨hqubits, hcounts, hdistinct'⟩ := exists_validate_iff.1 ⟨op, validate_toDraft hdistinct⟩
  refine ⟨hdistinct', hqubits, hcounts, fun p hp => ?_, isParametrized_iff hreduced⟩
  have hp := hreduced p hp
  cases p with
  | number x => exact Or.inl ⟨x, rfl⟩
  | symbolic e => exact Or.inr ⟨e, rfl, hp⟩

/-- The rotation inside an interaction that is built, decomposed and remapped. -/
theorem Reachable.invariant_rotation :
    (angle .rotateZ 5 (.symbolic (.symbol "x")) : Operation Float).Reachable
      ∧ (angle .rotateZ 5 (.symbolic (.symbol "x")) : Operation Float).isParametrized = true
      ∧ ∃ p ∈ (angle .rotateZ 5 (.symbolic (.symbol "x")) : Operation Float).parameters,
        p.symbols ≠ [] := by
  have hmake : (Variant.make (.interaction .zz) [.list [.int 0, .int 2], .expr (.symbol "x")]
      []).result = .ok (.interaction .zz [0, 2] (.symbolic (.symbol "x"))) := rfl
  have hmade : Reachable (.interaction .zz [0, 2] (.symbolic (.symbol "x"))) := .make hmake
  have hgate : Reachable (.angle .rotateZ 2 (.symbolic (.symbol "x"))) :=
    hmade.decompose rfl (List.mem_cons_of_mem _ List.mem_cons_self)
  have hremapped : Reachable (.angle .rotateZ 5 (.symbolic (.symbol "x"))) :=
    hgate.remap (m := .ofList [(2, 5)]) rfl
  obtain ⟨-, -, -, -, hparametrized⟩ := hremapped.invariant
  exact ⟨hremapped, rfl, hparametrized.1 rfl⟩

end OperationOf

end CircuitIR
