import CircuitIR.Proofs.RemappingOutcome
import CircuitIR.Session.Function

/-!
# Gates that are built one by one

The generators of controlled gates are also called with qubits that are not checked. Then every gate they
emit is built by itself, from indices that may be none. Building succeeds with all gates of the generator or
fails with the fault of one of them (`Builds`), so what is known of the generators decides when it succeeds.
-/

namespace CircuitIR

open OperationOf (mapIndices)

variable {gate : OperationOf (Except Fault ℤ) (Parameter Float)}
  {gates gates' : List (OperationOf (Except Fault ℤ) (Parameter Float))}

/-- The gate can be built, and the operation is what it becomes. -/
def BuildsAs (gate : OperationOf (Except Fault ℤ) (Parameter Float)) (op : Operation Float) : Prop :=
  buildGate gate = .ok op

/-- What building some gates comes to: operations for all of them, in order, or the fault of one of them. -/
inductive Builds (gates : List (OperationOf (Except Fault ℤ) (Parameter Float))) :
    Except Fault (List (Operation Float)) → Prop
  | ok {ops : List (Operation Float)}
      (h : List.Forall₂ BuildsAs gates ops) : Builds gates (.ok ops)
  | error {gate : OperationOf (Except Fault ℤ) (Parameter Float)} {f : Fault} (hgate : gate ∈ gates)
      (h : buildGate gate = .error f) : Builds gates (.error f)

namespace Builds

theorem buildGates (gates : List (OperationOf (Except Fault ℤ) (Parameter Float))) :
    Builds gates (buildGates gates) := by
  cases hgates : CircuitIR.buildGates gates with
  | ok ops => exact .ok (mapM_eq_ok_iff.1 hgates)
  | error f =>
      obtain ⟨gate, hgate, hfault⟩ := exists_error_of_mapM hgates
      exact .error hgate hfault

theorem bind {r : Except Fault (List (Operation Float))}
    {build : List (Operation Float) → Except Fault (List (Operation Float))} (h : Builds gates' r)
    (hsub : ∀ gate ∈ gates', gate ∈ gates)
    (hbuild : ∀ ops, List.Forall₂ BuildsAs gates' ops → Builds gates (build ops)) :
    Builds gates (r >>= build) := by
  cases h with
  | ok h => exact hbuild _ h
  | error hgate h => exact .error (hsub _ hgate) h

theorem bindGate {build : Operation Float → Except Fault (List (Operation Float))}
    (hmem : gate ∈ gates) (hbuild : ∀ op, BuildsAs gate op → Builds gates (build op)) :
    Builds gates (buildGate gate >>= build) := by
  cases hgate : buildGate gate with
  | ok op => exact hbuild op hgate
  | error f => exact .error hmem hgate

end Builds

namespace Controlled

variable {phase : Except Fault ℤ → Parameter Float → List (OperationOf (Except Fault ℤ) (Parameter Float))}
  {build : Except Fault ℤ → Parameter Float → Except Fault (List (Operation Float))}
  {controls : List (Except Fault ℤ)} {x t : Except Fault ℤ}

theorem builds_flipBy (h : ∀ φ, Builds (phase t φ) (build t φ)) (controls : List (Except Fault ℤ)) :
    Builds (flipBy phase controls t) (buildFlipBy build controls t) := by
  match controls with
  | [] => exact .buildGates _
  | [c] => exact .buildGates _
  | [d, c] => exact .buildGates _
  | a :: b :: c :: controls =>
      rw [flipBy, buildFlipBy]
      · refine .bindGate (by simp) fun hadamard hhadamard => ?_
        refine (h _).bind (by simp +contextual) fun ops hops => .ok ?_
        exact List.rel_append (R := BuildsAs) (.cons hhadamard hops) (.cons hhadamard .nil)
      all_goals simp

theorem builds_extend {half : Parameter Float}
    (hflip : Builds (flipBy phase controls x) (buildFlipBy build controls x))
    (hphase : Builds (phase t half) (build t half)) :
    Builds (extend phase controls x t half) (do
      let flip ← buildFlipBy build controls x
      let first ← buildGate (.controlledPhase x t half)
      let second ← buildGate (.controlledPhase x t half.neg)
      let rest ← build t half
      return first :: flip ++ second :: flip ++ rest) := by
  refine hflip.bind (by simp +contextual [extend]) fun flip hflip => ?_
  refine .bindGate (by simp [extend]) fun first hfirst => ?_
  refine .bindGate (by simp [extend]) fun second hsecond => ?_
  refine hphase.bind (by simp +contextual [extend]) fun rest hrest => .ok ?_
  have hgates := List.rel_append (R := BuildsAs) (.cons hfirst hflip) (.cons hsecond hflip)
  exact List.rel_append hgates hrest

/-- A phase is built from its gates, although the flip that occurs twice is built once and first. -/
theorem builds_phase (controls : List (Except Fault ℤ)) (t : Except Fault ℤ) (φ : Parameter Float) :
    Builds (Controlled.phase controls t φ) (buildPhase controls t φ) := by
  induction controls generalizing t φ with
  | nil => exact .buildGates _
  | cons x controls ih =>
      cases controls with
      | nil => exact .buildGates _
      | cons y controls =>
          rw [Controlled.phase, buildPhase]
          · exact builds_extend (builds_flipBy (ih x) _) (ih t _)
          all_goals simp

end Controlled

/-! ## Lists of integers -/

section Integers

variable {qs : List ℤ}

theorem buildGate_mapIndices (draft : Draft Float) :
    buildGate (draft.mapIndices .ok .ok) = draft.validate := by
  have hread : (draft.mapIndices .ok .ok).traverseIndices (fun _ q => q) (fun _ n => n)
      = (.ok (draft.mapIndices id id) : Except Fault (Draft Float)) :=
    OperationOf.traverseIndices_mapIndices (fun _ _ _ => rfl) fun _ _ => rfl
  rw [buildGate, hread, OperationOf.mapIndices_id, ok_bind]

theorem toQubit_int (q : ℤ) : (Datum.int q).toQubit = .ok q := rfl

theorem map_toQubit_int (qs : List ℤ) : (qs.map Datum.int).map Datum.toQubit = qs.map .ok := by
  rw [List.map_map]
  rfl

theorem builds_controlledFlipOf {t : ℤ} {controls : List ℤ} (hqs : qs.reverse = t :: controls) :
    Builds ((Controlled.flip controls t).map (mapIndices .ok .ok))
      (controlledFlipOf ((qs.map Datum.int).map Datum.toQubit)) := by
  rw [map_toQubit_int, controlledFlipOf, ← List.map_reverse, hqs, ← Controlled.flip_map]
  exact Controlled.builds_flipBy (Controlled.builds_phase _ _) _

/-- A valid phase between two qubits keeps its angle. -/
theorem exists_controlledPhase {c t : ℤ} {θ : Parameter Float} {op : Operation Float}
    (h : (.controlledPhase c t θ : Draft Float).validate = .ok op) :
    ∃ c' t', op = .controlledPhase c' t' θ := by
  obtain ⟨-, hdraft⟩ := OperationOf.validate_eq_ok h
  cases op with
  | controlledPhase c' t' θ' =>
      rw [mapIndices, OperationOf.controlledPhase.injEq] at hdraft
      exact ⟨c', t', hdraft.2.2 ▸ rfl⟩
  | _ => cases hdraft

theorem result_make_controlledPhase (c t : ℤ) (x : Float) :
    (Variant.make .controlledPhase [.int c, .int t, .real x] []).result
      = buildGate (.controlledPhase (.ok c) (.ok t) (.number x)) := rfl

theorem buildGates_singleton (gate : OperationOf (Except Fault ℤ) (Parameter Float)) :
    buildGates [gate] = buildGate gate >>= fun op => .ok [op] := by
  rw [buildGates, List.mapM_cons, List.mapM_nil]
  rfl

/-- The phase of at least three integers is built in the order of the generator. -/
theorem result_controlledPhaseOf {t c d : ℤ} {controls : List ℤ}
    (hqs : qs.reverse = t :: c :: d :: controls) (x : Float) :
    (controlledPhaseOf (qs.map Datum.int) (.real x)).result = (do
      let flip ← buildFlipBy (buildPhase ((d :: controls).map .ok)) ((d :: controls).map .ok) (.ok c)
      let first ← buildGate (.controlledPhase (.ok c) (.ok t) (.number (Scalar.half x)))
      let second ← buildGate (.controlledPhase (.ok c) (.ok t) (.number (-Scalar.half x)))
      let rest ← buildPhase ((d :: controls).map .ok) (.ok t) (.number (Scalar.half x))
      return first :: flip ++ second :: flip ++ rest) := by
  have hhalf : (Datum.real x).half = .ok (.real (Scalar.half x)) := rfl
  have hlift : ∀ {α : Type} (r : Except Fault α), (liftM r : Traced α).result = r := fun _ => rfl
  rw [controlledPhaseOf, ← List.map_reverse, hqs]
  simp only [List.map_cons, Traced.result_bind, hlift, hhalf, ok_bind, result_make_controlledPhase,
    map_toQubit_int, toQubit_int]
  refine bind_congr fun flip => ?_
  cases hfirst : buildGate (.controlledPhase (.ok c) (.ok t) (.number (Scalar.half x))) with
  | error f => rfl
  | ok first =>
      obtain ⟨c', t', rfl⟩ := exists_controlledPhase hfirst
      simp only [ok_bind, Traced.result_bind, hlift, Parameter.neg]
      rfl

theorem builds_controlledPhaseOf {t : ℤ} {controls : List ℤ} (hqs : qs.reverse = t :: controls)
    (x : Float) :
    Builds ((Controlled.phase controls t (.number x)).map (mapIndices .ok .ok))
      (controlledPhaseOf (qs.map Datum.int) (.real x)).result := by
  rw [← Controlled.phase_map]
  match controls with
  | [] =>
      have hcall : (controlledPhaseOf (qs.map Datum.int) (.real x)).result
          = buildGates [.angle .phaseShift (.ok t) (.number x)] := by
        rw [controlledPhaseOf, ← List.map_reverse, hqs, buildGates_singleton]
        exact Traced.result_bind _ _
      exact hcall ▸ .buildGates _
  | [c] =>
      have hcall : (controlledPhaseOf (qs.map Datum.int) (.real x)).result
          = buildGates [.controlledPhase (.ok c) (.ok t) (.number x)] := by
        rw [controlledPhaseOf, ← List.map_reverse, hqs, buildGates_singleton]
        exact Traced.result_bind _ _
      exact hcall ▸ .buildGates _
  | c :: d :: controls =>
      rw [result_controlledPhaseOf hqs]
      exact Controlled.builds_extend (Controlled.builds_flipBy (Controlled.builds_phase _ _) _)
        (Controlled.builds_phase _ _ _)

variable {drafts : List (Draft Float)} {r : Except Fault (List (Operation Float))}

theorem counts_eq_nil {I P : Type} {op : OperationOf I P} (hgate : op.variant.isGate = true) :
    op.counts = [] := by
  cases op with
  | setMeasurements | repeatedMeasurement | measure | definition => exact nomatch hgate
  | _ => rfl

/-- Gates built from integers are all valid, or one of them is refused for its qubits. -/
theorem Builds.outcome (h : Builds (drafts.map (mapIndices .ok .ok)) r)
    (hgates : ∀ draft ∈ drafts, draft.variant.isGate = true) :
    (∃ ops, r = .ok ops ∧ validateAll drafts = .ok ops)
      ∨ ∃ f, r = .error f ∧ f.kind = .initialization ∧ ∃ draft ∈ drafts, draft.validate = .error f := by
  cases h with
  | ok h =>
      rw [List.forall₂_map_left_iff] at h
      have hvalid : List.Forall₂ (fun draft op => draft.validate = .ok op) drafts _ :=
        h.imp fun draft op hop => (buildGate_mapIndices draft).symm.trans hop
      exact Or.inl ⟨_, rfl, mapM_eq_ok_iff.2 hvalid⟩
  | error hgate hfault =>
      obtain ⟨draft, hdraft, rfl⟩ := List.mem_map.1 hgate
      rw [buildGate_mapIndices] at hfault
      have hcounts : ∀ k ∈ draft.counts, 0 ≤ k := by
        rw [counts_eq_nil (hgates draft hdraft)]
        exact fun _ hk => absurd hk List.not_mem_nil
      have hkind := OperationOf.kind_of_validate_eq_error hcounts hfault
      exact Or.inr ⟨_, rfl, hkind, draft, hdraft, hfault⟩

theorem Builds.eq_ok {gates : List (Operation Float)}
    (h : Builds ((gates.map (mapIndices Int.ofNat Int.ofNat)).map (mapIndices .ok .ok)) r)
    (hsmall : ∀ gate ∈ gates, gate.qubits.Nodup) : r = .ok gates := by
  have hvalid : ∀ gate ∈ gates,
      buildGate ((gate.mapIndices Int.ofNat Int.ofNat).mapIndices .ok .ok) = .ok gate := by
    intro gate hgate
    rw [buildGate_mapIndices, ← OperationOf.toDraft_eq_mapIndices]
    exact OperationOf.validate_toDraft (hsmall gate hgate)
  rw [List.map_map] at h
  cases h with
  | ok h =>
      rw [List.forall₂_map_left_iff] at h
      have hall : gates.mapM (fun gate =>
          buildGate ((gate.mapIndices Int.ofNat Int.ofNat).mapIndices .ok .ok)) = .ok (gates.map id) :=
        mapM_eq_ok hvalid
      rw [List.map_id] at hall
      exact (mapM_eq_ok_iff.2 h).symm.trans hall
  | error hgate hfault =>
      obtain ⟨gate, hmem, rfl⟩ := List.mem_map.1 hgate
      exact nomatch (hvalid gate hmem).symm.trans hfault

end Integers

/-! ## Lists of different qubits -/

section Qubits

variable {qs controls : List ℕ} {t : ℕ}

theorem reverse_map_ofNat (hqs : qs.reverse = t :: controls) :
    (qs.map Int.ofNat).reverse = Int.ofNat t :: controls.map Int.ofNat := by
  rw [← List.map_reverse, hqs, List.map_cons]

theorem ofNats_eq_map (qs : List ℕ) : Datum.ofNats qs = (qs.map Int.ofNat).map Datum.int := by
  rw [Datum.ofNats, List.map_map]
  rfl

theorem controlledFlipOf_nats (hqs : qs.reverse = t :: controls) (hdistinct : (t :: controls).Nodup) :
    controlledFlipOf ((Datum.ofNats qs).map Datum.toQubit) = .ok (Controlled.flip controls t) := by
  have hbuilds := builds_controlledFlipOf (reverse_map_ofNat hqs)
  rw [Controlled.flip_map Int.ofNat Int.ofNat, ← ofNats_eq_map] at hbuilds
  exact hbuilds.eq_ok fun gate hgate => (Controlled.small_flip hdistinct gate hgate).nodup

theorem controlledPhaseOf_nats (hqs : qs.reverse = t :: controls) (hdistinct : (t :: controls).Nodup)
    (x : Float) : (controlledPhaseOf (Datum.ofNats qs) (.real x)).result
      = .ok (Controlled.phase controls t (.number x)) := by
  have hbuilds := builds_controlledPhaseOf (reverse_map_ofNat hqs) x
  rw [Controlled.phase_map Int.ofNat Int.ofNat, ← ofNats_eq_map] at hbuilds
  exact hbuilds.eq_ok fun gate hgate => (Controlled.small_phase hdistinct x gate hgate).nodup

end Qubits

end CircuitIR
