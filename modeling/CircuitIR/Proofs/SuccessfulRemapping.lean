import CircuitIR.Proofs.IndexRenaming

/-!
# Remapping that succeeds

A table of integers that remaps an operation covers its qubits, sends them to natural numbers and keeps
them apart: the success of the remapping alone says that it is a renaming (`remap_eq_ok`). Whatever the map
is, no parameter changes and the qubits of the result are different.
-/

namespace CircuitIR

namespace QubitMap

variable {entries : List (ℤ × ℤ)}

/-- The qubit that a table of integers sends a qubit to. -/
def image (entries : List (ℤ × ℤ)) (q : ℕ) : ℕ := ((lookUp entries q).getD 0).toNat

theorem target_ofList_iff {q t : ℤ} :
    (ofList entries).target q = .ok (.ofInt t) ↔ lookUp entries q = some t := by
  constructor
  · intro h
    simp only [ofList] at h
    cases hlookUp : lookUp entries q with
    | none =>
        rw [hlookUp] at h
        cases h
    | some r =>
        rw [hlookUp] at h
        injection Except.ok.inj h with hr
        rw [Except.ok.inj hr]
  · intro h
    simp only [ofList, h]

theorem missing_ofList (entries : List (ℤ × ℤ)) (qs : List ℤ) :
    (ofList entries).missing qs = .ok (qs.filter fun q => (lookUp entries q).isNone) := by
  have hkeep : ∀ q, (do return !(← (ofList entries).covers q) : Except Fault Bool)
      = .ok (lookUp entries q).isNone := by
    intro q
    change Except.ok (!(lookUp entries q).isSome) = _
    rw [Option.not_isSome]
  -- the members that are kept are collected in reverse
  have haux : ∀ kept : List ℤ,
      qs.filterAuxM (fun q => do return !(← (ofList entries).covers q)) kept
        = .ok ((qs.filter fun q => (lookUp entries q).isNone).reverse ++ kept) := by
    induction qs with
    | nil => exact fun kept => rfl
    | cons q qs ih =>
        intro kept
        rw [List.filterAuxM, hkeep, List.filter_cons]
        cases (lookUp entries q).isNone with
        | true =>
            rw [if_pos rfl, List.reverse_cons, List.append_assoc]
            exact ih (q :: kept)
        | false => exact ih kept
  rw [missing, List.filterM, haux []]
  change Except.ok (_ : List ℤ).reverse = _
  rw [List.append_nil, List.reverse_reverse]

theorem result_checkTotal_ofList (entries : List (ℤ × ℤ)) (qs : List ℤ) :
    ((ofList entries).checkTotal qs).result
      = match qs.find? fun q => (lookUp entries q).isNone with
        | none => .ok ()
        | some q => .error (.unmappedQubit (.index q)) := by
  rw [← List.head?_filter, checkTotal, missing_ofList]
  cases qs.filter fun q => (lookUp entries q).isNone with
  | nil => rfl
  | cons q rest => rfl

theorem exists_lookUp_of_checkTotal {qs : List ℤ} (h : ((ofList entries).checkTotal qs).result = .ok ()) :
    ∀ q ∈ qs, ∃ r, lookUp entries q = some r := by
  intro q hq
  rw [result_checkTotal_ofList] at h
  cases hfirst : qs.find? fun q => (lookUp entries q).isNone with
  | none =>
      rw [List.find?_eq_none] at hfirst
      exact Option.ne_none_iff_exists'.1 (by simpa using hfirst q hq)
  | some r =>
      rw [hfirst] at h
      exact nomatch h

end QubitMap

namespace OperationOf

variable {R : Type} {op op' : Operation R} {m : QubitMap} {entries : List (ℤ × ℤ)}

/-- A remapped operation is the valid one among the drafts that the images of the qubits make. -/
theorem exists_draft_of_remapCovered {involved : List ℤ} (h : op.remapCovered m involved = .ok op') :
    ∃ looked draft,
      op.toDraft.traverseIndices (fun _ q => m.target q) (fun _ n => .ok (.ofInt n)) = .ok looked
        ∧ looked.traverseIndices (fun _ t => t.asQubit) (fun _ t => t.asQubit) = .ok draft
        ∧ draft.validate = .ok op' := by
  obtain ⟨looked, hlooked, h⟩ := bind_eq_ok.1 h
  obtain ⟨draft, hdraft, h⟩ := bind_eq_ok.1 h
  refine ⟨looked, draft, hlooked, hdraft, ?_⟩
  cases hvalid : draft.validate with
  | ok made =>
      rw [hvalid] at h
      exact h
  | error e =>
      simp only [hvalid] at h
      split at h
      · obtain ⟨targets, -, h⟩ := bind_eq_ok.1 h
        exact nomatch h
      · exact nomatch h

theorem remapCovered_of_remap {qs : List ℕ} (hinvolved : op.involved = .finite qs)
    (h : (op.remap m).result = .ok op') :
    (m.checkTotal (qs.map Int.ofNat)).result = .ok ()
      ∧ op.remapCovered m (qs.map Int.ofNat) = .ok op' := by
  unfold remap at h
  rw [hinvolved] at h
  change (m.checkTotal (qs.map Int.ofNat) >>= fun _ =>
    Traced.ofExcept (op.remapCovered m (qs.map Int.ofNat))).result = _ at h
  obtain ⟨⟨⟩, hcheck, h⟩ := Traced.bind_result_eq_ok.1 h
  exact ⟨hcheck, h⟩

/-- A traversal of the indices keeps the kind and the parameters. -/
theorem traverseIndices_eq_ok {ε I J P : Type} {onQubit onCount : String → I → Except ε J}
    {op : OperationOf I P} {op' : OperationOf J P}
    (h : op.traverseIndices onQubit onCount = .ok op') :
    op'.variant = op.variant ∧ op'.parameters = op.parameters := by
  cases op with
  | globalPhase φ =>
      obtain rfl := Except.ok.inj h
      exact ⟨rfl, rfl⟩
  | pair | controlledPhase | measure =>
      obtain ⟨i, -, h⟩ := bind_eq_ok.1 h
      obtain ⟨j, -, h⟩ := bind_eq_ok.1 h
      obtain rfl := Except.ok.inj h
      exact ⟨rfl, rfl⟩
  | _ =>
      obtain ⟨i, -, h⟩ := bind_eq_ok.1 h
      obtain rfl := Except.ok.inj h
      exact ⟨rfl, rfl⟩

/-- **Whatever a map answers**, a remapped operation is of the same kind and has the same parameters, and its
qubits are different. -/
theorem remap_keeps (h : (op.remap m).result = .ok op') :
    op'.variant = op.variant ∧ op'.parameters = op.parameters ∧ op'.qubits.Nodup := by
  cases hinvolved : op.involved with
  | finite qs =>
      obtain ⟨-, hcovered⟩ := remapCovered_of_remap hinvolved h
      obtain ⟨looked, draft, hlooked, hdraft, hvalid⟩ := exists_draft_of_remapCovered hcovered
      obtain ⟨hdistinct, hwidened⟩ := validate_eq_ok hvalid
      obtain ⟨hvariant, hparameters⟩ := traverseIndices_eq_ok hlooked
      obtain ⟨hvariant', hparameters'⟩ := traverseIndices_eq_ok hdraft
      rw [toDraft_eq_mapIndices, variant_mapIndices] at hvariant
      rw [toDraft_eq_mapIndices, parameters_mapIndices] at hparameters
      rw [← hwidened, variant_mapIndices, hvariant] at hvariant'
      rw [← hwidened, parameters_mapIndices, hparameters] at hparameters'
      exact ⟨hvariant', hparameters', hdistinct⟩
  | all | none =>
      cases op with
      | globalPhase | setMeasurements | definition =>
          obtain rfl := Except.ok.inj h
          exact ⟨rfl, rfl, List.nodup_nil⟩
      | repeatedMeasurement s k table =>
          cases table with
          | none =>
              obtain rfl := Except.ok.inj h
              exact ⟨rfl, rfl, List.nodup_nil⟩
          | some t =>
              obtain ⟨t', -, h⟩ := Traced.bind_result_eq_ok.1 h
              obtain rfl := Except.ok.inj h
              exact ⟨rfl, rfl, List.nodup_nil⟩
      | _ => exact nomatch hinvolved

/-- Where a table has an image for every qubit of an operation, the images make a draft. -/
theorem draft_ofList {target : ℕ → ℤ}
    (hlookUp : ∀ q ∈ op.qubits, QubitMap.lookUp entries q = some (target q)) :
    (op.toDraft.traverseIndices (fun _ q => (QubitMap.ofList entries).target q)
        (fun _ n => .ok (.ofInt n))
      >>= fun looked => looked.traverseIndices (fun _ t => t.asQubit) fun _ t => t.asQubit)
      = .ok (op.mapIndices target Int.ofNat) := by
  have hlooked : op.toDraft.traverseIndices (fun _ q => (QubitMap.ofList entries).target q)
        (fun _ n => .ok (.ofInt n))
      = .ok (op.mapIndices (fun q => QubitTarget.ofInt (target q)) fun n => .ofInt n) := by
    rw [toDraft_eq_mapIndices]
    refine traverseIndices_mapIndices (fun _ q hq => ?_) fun _ _ => rfl
    exact QubitMap.target_ofList_iff.2 (hlookUp q hq)
  refine bind_eq_ok.2 ⟨_, hlooked, ?_⟩
  exact traverseIndices_mapIndices (fun _ _ _ => rfl) fun _ _ => rfl

/-- **Remapping that succeeds is renaming.** If a table remaps an operation on a finite set of qubits, these
qubits are different, the table renames them, and this is all that happens. -/
theorem remap_eq_ok (hinvolved : op.involved = .finite (Involved.ofList op.qubits))
    (h : (op.remap (.ofList entries)).result = .ok op') :
    op.qubits.Nodup ∧ (QubitMap.ofList entries).Renames (QubitMap.image entries) op.qubits
      ∧ op' = op.mapIndices (QubitMap.image entries) id := by
  set target : ℕ → ℤ := fun q => (QubitMap.lookUp entries q).getD 0 with htarget
  obtain ⟨hcheck, hcovered⟩ := remapCovered_of_remap hinvolved h
  obtain ⟨looked, draft, hlooked, hdraft, hvalid⟩ := exists_draft_of_remapCovered hcovered
  have hlookUp : ∀ q ∈ op.qubits, QubitMap.lookUp entries q = some (target q) := by
    intro q hq
    have hlisted : Int.ofNat q ∈ (Involved.ofList op.qubits).map Int.ofNat :=
      List.mem_map_of_mem (Involved.mem_ofList.2 hq)
    obtain ⟨r, hr⟩ := QubitMap.exists_lookUp_of_checkTotal hcheck _ hlisted
    simp only [htarget, show QubitMap.lookUp entries q = some r from hr, Option.getD_some]
  obtain rfl : op.mapIndices target Int.ofNat = draft :=
    Except.ok.inj ((draft_ofList hlookUp).symm.trans (bind_eq_ok.2 ⟨looked, hlooked, hdraft⟩))
  obtain ⟨hdistinct', hwidened⟩ := validate_eq_ok hvalid
  -- the images are the qubits of the result, so none of them is negative
  have hnonneg : ∀ q ∈ op.qubits, Int.ofNat (QubitMap.image entries q) = target q := by
    intro q hq
    have hmem : target q ∈ op'.qubits.map Int.ofNat := by
      rw [← qubits_mapIndices Int.ofNat Int.ofNat, hwidened, qubits_mapIndices]
      exact List.mem_map_of_mem hq
    obtain ⟨n, -, hn⟩ := List.mem_map.1 hmem
    rw [QubitMap.image, show (QubitMap.lookUp entries q).getD 0 = target q from rfl, ← hn]
    rfl
  have hop' : op' = op.mapIndices (QubitMap.image entries) id := by
    have hback : op'.mapIndices Int.ofNat Int.ofNat
        = (op.mapIndices (QubitMap.image entries) id).mapIndices Int.ofNat Int.ofNat := by
      rw [hwidened, mapIndices_mapIndices]
      exact (mapIndices_congr hnonneg).symm
    have hnarrowed := congrArg (mapIndices Int.toNat Int.toNat) hback
    have hinverse : Int.toNat ∘ Int.ofNat = id := rfl
    rwa [mapIndices_mapIndices, mapIndices_mapIndices, hinverse, mapIndices_id, mapIndices_id]
      at hnarrowed
  rw [hop', qubits_mapIndices] at hdistinct'
  refine ⟨hdistinct'.of_map _, QubitMap.renames_ofList (fun q hq => ?_) fun q hq r hr => ?_, hop'⟩
  · rw [hlookUp q hq, ← hnonneg q hq]
    rfl
  · exact List.inj_on_of_nodup_map hdistinct' hq hr

end OperationOf

end CircuitIR
