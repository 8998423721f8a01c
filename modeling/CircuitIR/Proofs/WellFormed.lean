import CircuitIR.Proofs.RecordFields

/-!
# Operations that are built

Whatever values are given for its fields, an operation that is built has different qubits, and no qubit
occurs twice in its readout table.
-/

namespace CircuitIR

namespace Datum

variable {d : Datum}

theorem nodup_of_toTable {t : ReadoutTable} (h : d.toTable = .ok (some t)) :
    (t.map (·.1)).Nodup := by
  cases d with
  | null => exact nomatch h
  | dict es =>
      obtain ⟨entries, -, ht⟩ := bind_eq_ok.1 h
      obtain rfl : ReadoutTable.ofList entries = t := Option.some.inj (Except.ok.inj ht)
      exact ReadoutTable.nodup_keys_ofList entries
  | _ => exact nomatch h

theorem hasDistinctKeys_of_toField {kind : FieldKind} {content : FieldOf ℤ (Parameter Float)}
    (h : (d.toField kind).result = .ok content) : content.HasDistinctKeys := by
  cases kind with
  | table =>
      obtain ⟨t, ht, hcontent⟩ := Traced.bind_result_eq_ok.1 h
      obtain rfl : FieldOf.table t = content := Except.ok.inj hcontent
      cases t with
      | none => trivial
      | some t => exact nodup_of_toTable ht
  | _ =>
      obtain ⟨x, -, hcontent⟩ := Traced.bind_result_eq_ok.1 h
      obtain rfl := Except.ok.inj hcontent
      trivial

end Datum

namespace OperationOf

theorem fields_mapIndices {I J P : Type} (f : I → J) (op : OperationOf I P) :
    (op.mapIndices f f).fields = op.fields.map (FieldOf.mapIndices f) := by
  cases op <;> rfl

theorem fields_of_ofFields? {I P : Type} {v : Variant} {contents : List (FieldOf I P)}
    {op : OperationOf I P} (h : ofFields? v contents = some op) : op.fields = contents := by
  unfold ofFields? at h
  split at h
  case h_15 => exact nomatch h
  all_goals
    obtain rfl := Option.some.inj h
    rfl

end OperationOf

theorem Variant.hasDistinctKeys_of_fieldContent {kind : FieldKind} {d : Option Datum}
    {content : FieldOf ℤ (Parameter Float)} (h : (fieldContent kind d).result = .ok content) :
    content.HasDistinctKeys := by
  cases d with
  | some d => exact Datum.hasDistinctKeys_of_toField h
  | none =>
      cases kind with
      | parameters | table =>
          obtain rfl := Except.ok.inj h
          trivial
      | _ => exact nomatch h

/-- The fields of an operation that is built hold the values that are given for them, converted and otherwise
as they are. -/
theorem Variant.construct_eq_ok {v : Variant} {values : List (Option Datum)} {op : Operation Float}
    (h : (v.construct values).result = .ok op) :
    op.qubits.Nodup ∧ ∃ contents, op.toDraft.fields = contents
      ∧ ((v.schema.map (·.2)).zip values).mapM (fun e => (fieldContent e.1 e.2).result)
        = .ok contents := by
  obtain ⟨contents, hcontents, h⟩ := Traced.bind_result_eq_ok.1 h
  rw [Traced.result_mapM] at hcontents
  cases hdraft : OperationOf.ofFields? v contents with
  | none =>
      rw [hdraft] at h
      exact nomatch h
  | some draft =>
      rw [hdraft] at h
      obtain ⟨hdistinct, hwidened⟩ := OperationOf.validate_eq_ok h
      refine ⟨hdistinct, contents, ?_, hcontents⟩
      rw [OperationOf.toDraft_eq_mapIndices, hwidened, OperationOf.fields_of_ofFields? hdraft]

/-- **Every operation that is built is well-formed.** -/
theorem Variant.construct_isWellFormed {v : Variant} {values : List (Option Datum)}
    {op : Operation Float} (h : (v.construct values).result = .ok op) : op.IsWellFormed := by
  obtain ⟨hdistinct, contents, hfields, hcontents⟩ := construct_eq_ok h
  have hkeys : ∀ content ∈ contents, content.HasDistinctKeys :=
    forall_of_mapM_eq_ok (fun e _ _ => hasDistinctKeys_of_fieldContent) hcontents
  rw [OperationOf.toDraft_eq_mapIndices, OperationOf.fields_mapIndices] at hfields
  refine ⟨hdistinct, fun field hfield => ?_⟩
  have hwide := hkeys (field.mapIndices Int.ofNat) (hfields ▸ List.mem_map_of_mem hfield)
  cases field with
  | table t =>
      cases t with
      | none => trivial
      | some t => exact hwide
  | _ => trivial

end CircuitIR
