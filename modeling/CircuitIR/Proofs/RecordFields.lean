import CircuitIR.Proofs.IndexRenaming
import CircuitIR.Proofs.IntegerText
import CircuitIR.Proofs.SelfEquality
import CircuitIR.Record.Decoding

/-!
# Fields of records

A JSON document has only texts as keys, so the integer keys of a readout table come back as their decimal
texts (`Datum.textKeys?`). With and without this, the data of a field are converted back to the content of
the field.
-/

namespace CircuitIR

theorem mapM_map_eq_ok {ε α β γ : Type} {xs : List α} {enc : α → β} {f : β → Except ε γ} {g : α → γ}
    (h : ∀ x ∈ xs, f (enc x) = .ok (g x)) : (xs.map enc).mapM f = .ok (xs.map g) := by
  rw [List.mapM_map]
  exact mapM_eq_ok h

namespace Datum

def keyText? : Datum → Option Datum
  | int n =>
    if (integerDigits n).length ≤ NumberReader.maxIntegerDigits then some (text (toString n))
    else none
  | k => some k

mutual

/-- The value with the integer keys of all its tables as decimal texts. It has no such form if some key has
more digits than are written. -/
def textKeys? : Datum → Option Datum
  | list ds => (textKeysAll? ds).map list
  | dict es => (textKeysEntries? es).map dict
  | d => some d

def textKeysAll? : List Datum → Option (List Datum)
  | [] => some []
  | d :: ds =>
    match textKeys? d, textKeysAll? ds with
    | some d, some ds => some (d :: ds)
    | _, _ => none

def textKeysEntries? : List (Datum × Datum) → Option (List (Datum × Datum))
  | [] => some []
  | (k, d) :: es =>
    match keyText? k, textKeys? d, textKeysEntries? es with
    | some k, some d, some es => some ((k, d) :: es)
    | _, _, _ => none

end

theorem textKeysAll?_map {α : Type} {xs : List α} {enc enc' : α → Datum}
    (h : ∀ x ∈ xs, (enc x).textKeys? = some (enc' x)) :
    textKeysAll? (xs.map enc) = some (xs.map enc') := by
  induction xs with
  | nil => rfl
  | cons x xs ih =>
      have hx := h x List.mem_cons_self
      have hxs := ih fun y hy => h y (List.mem_cons_of_mem x hy)
      rw [List.map_cons, textKeysAll?, hx, hxs, List.map_cons]

theorem textKeysEntries?_map {α : Type} {xs : List α} {key key' enc enc' : α → Datum}
    (hkey : ∀ x ∈ xs, keyText? (key x) = some (key' x))
    (h : ∀ x ∈ xs, (enc x).textKeys? = some (enc' x)) :
    textKeysEntries? (xs.map fun x => (key x, enc x)) = some (xs.map fun x => (key' x, enc' x)) := by
  induction xs with
  | nil => rfl
  | cons x xs ih =>
      have hx := h x List.mem_cons_self
      have hk := hkey x List.mem_cons_self
      have hxs := ih (fun y hy => hkey y (List.mem_cons_of_mem x hy)) fun y hy =>
        h y (List.mem_cons_of_mem x hy)
      rw [List.map_cons, textKeysEntries?, hk, hx, hxs, List.map_cons]

end Datum

/-- The text of the parameter, if it is symbolic, is read as the parameter. -/
def Parameter.IsReadable : Parameter Float → Prop
  | .number _ => True
  | .symbolic e => (Parameter.read e.text).result = .ok (.symbolic e)

@[simp]
theorem Parameter.isReadable_number (x : Float) : (Parameter.number x).IsReadable := trivial

theorem Parameter.IsReadable.toParameter_record {p : Parameter Float} (h : p.IsReadable) :
    p.record.toParameter.result = .ok p := by
  cases p with
  | number x => rfl
  | symbolic e => exact h

namespace ReadoutTable

variable {t : ReadoutTable}

/-- No key has more digits than are written. -/
def HasShortKeys (t : ReadoutTable) : Prop :=
  ∀ e ∈ t, (integerDigits e.1).length ≤ NumberReader.maxIntegerDigits

/-- A readout table in a record with its keys as texts. -/
def textRecord (t : ReadoutTable) : Datum :=
  .dict (t.map fun e => (.text (toString e.1), .int e.2))

theorem textKeys?_record (h : t.HasShortKeys) : t.record.textKeys? = some t.textRecord := by
  have hentries : Datum.textKeysEntries? (t.map fun e => (.int e.1, .int e.2))
      = some (t.map fun e => (.text (toString e.1), .int e.2)) :=
    Datum.textKeysEntries?_map (fun e he => if_pos (h e he)) fun e _ => rfl
  change (Datum.textKeysEntries? (t.map fun e => (.int e.1, .int e.2))).map Datum.dict = _
  rw [hentries]
  rfl

/-- A table is converted back from any form of its entries whose keys read as its keys. -/
theorem toTable_eq_ok (ht : (t.map (·.1)).Nodup) {key : ℤ × ℤ → Datum}
    (hkey : ∀ e ∈ t, (key e).toInt = .ok e.1) :
    (Datum.dict (t.map fun e => (key e, .int e.2))).toTable = .ok (some t) := by
  have hentry : ∀ e ∈ t, (do
      let q ← (key e).toInt
      let i ← (Datum.int e.2).toInt
      return (q, i) : Except Fault (ℤ × ℤ)) = .ok (id e) := by
    intro e he
    rw [hkey e he]
    rfl
  have hentries : (t.map fun e => (key e, Datum.int e.2)).mapM (fun d => (do
      let q ← d.1.toInt
      let i ← d.2.toInt
      return (q, i) : Except Fault (ℤ × ℤ))) = .ok (t.map id) := mapM_map_eq_ok hentry
  rw [List.map_id] at hentries
  change (_ >>= fun entries : List (ℤ × ℤ) => _) = _
  rw [hentries]
  change Except.ok (some (ofList t)) = _
  rw [ofList_eq_self ht]

end ReadoutTable

namespace FieldOf

variable {I J P : Type}

def kind : FieldOf I P → FieldKind
  | .qubit _ => .qubit
  | .qubits _ => .qubits
  | .parameter _ => .parameter
  | .parameters _ => .parameters
  | .text _ => .text
  | .count _ => .count
  | .flag _ => .flag
  | .table _ => .table

def mapIndices (f : I → J) : FieldOf I P → FieldOf J P
  | .qubit q => .qubit (f q)
  | .qubits qs => .qubits (qs.map f)
  | .parameter p => .parameter p
  | .parameters ps => .parameters ps
  | .text s => .text s
  | .count n => .count (f n)
  | .flag b => .flag b
  | .table t => .table t

def HasShortKeys : FieldOf I P → Prop
  | .table (some t) => t.HasShortKeys
  | _ => True

/-- The content of a field in a record with text keys. -/
def textRecord : FieldOf ℕ (Parameter Float) → Datum
  | .table (some t) => t.textRecord
  | field => field.record

/-- The field is converted back from a form of its content. -/
def Restores (enc : FieldOf ℕ (Parameter Float) → Datum) (field : FieldOf ℕ (Parameter Float)) :
    Prop :=
  ((enc field).toField field.kind).result = .ok (field.mapIndices Int.ofNat)

variable {field : FieldOf ℕ (Parameter Float)}

theorem textKeys?_record (h : field.HasShortKeys) :
    field.record.textKeys? = some field.textRecord := by
  cases field with
  | qubits qs =>
      change (Datum.textKeysAll? (qs.map fun q => Datum.int (Int.ofNat q))).map Datum.list = _
      rw [Datum.textKeysAll?_map fun q _ => rfl]
      rfl
  | parameter p => cases p <;> rfl
  | parameters ps =>
      have hleaf : ∀ p ∈ ps, p.record.textKeys? = some p.record := by
        rintro (x | e) _ <;> rfl
      change (Datum.textKeysAll? (ps.map Parameter.record)).map Datum.list = _
      rw [Datum.textKeysAll?_map hleaf]
      rfl
  | table t =>
      cases t with
      | none => rfl
      | some t => exact ReadoutTable.textKeys?_record h
  | _ => rfl

/-- **The content of a field is converted back from its record.** -/
theorem restores_record (hkeys : field.HasDistinctKeys)
    (hreadable : ∀ p ∈ field.parameterList, p.IsReadable) : Restores record field := by
  cases field with
  | qubit q | text s | count n | flag b => rfl
  | qubits qs =>
      have hqs : (Datum.ofNats qs).mapM Datum.toQubit = .ok (qs.map Int.ofNat) :=
        mapM_map_eq_ok fun q _ => rfl
      change (Traced.ofExcept ((Datum.ofNats qs).mapM Datum.toQubit) >>= _).result = _
      rw [Traced.result_bind, Traced.result_ofExcept, hqs]
      rfl
  | parameter p =>
      have hp := (hreadable p List.mem_cons_self).toParameter_record
      change (p.record.toParameter >>= _).result = _
      rw [Traced.result_bind, hp]
      rfl
  | parameters ps =>
      have hps : ((ps.map Parameter.record).mapM Datum.toParameter).result = .ok (ps.map id) := by
        rw [Traced.result_mapM]
        exact mapM_map_eq_ok fun p hp => (hreadable p hp).toParameter_record
      rw [List.map_id] at hps
      change ((ps.map Parameter.record).mapM Datum.toParameter >>= _).result = _
      rw [Traced.result_bind, hps]
      rfl
  | table t =>
      cases t with
      | none => rfl
      | some t =>
          have ht : t.record.toTable = .ok (some t) :=
            ReadoutTable.toTable_eq_ok hkeys fun e _ => rfl
          change (Traced.ofExcept t.record.toTable >>= _).result = _
          rw [Traced.result_bind, Traced.result_ofExcept, ht]
          rfl

/-- The content of a field is converted back from its record with text keys. -/
theorem restores_textRecord (hkeys : field.HasDistinctKeys) (hshort : field.HasShortKeys)
    (hreadable : ∀ p ∈ field.parameterList, p.IsReadable) : Restores textRecord field := by
  have hrecord := restores_record hkeys hreadable
  cases field with
  | table t =>
      cases t with
      | none => rfl
      | some t =>
          have ht : t.textRecord.toTable = .ok (some t) := by
            refine ReadoutTable.toTable_eq_ok hkeys fun e he => ?_
            rw [Datum.toInt, NumberReader.readInt?_toString (hshort e he)]
          change (Traced.ofExcept t.textRecord.toTable >>= _).result = _
          rw [Traced.result_bind, Traced.result_ofExcept, ht]
          rfl
  | _ => exact hrecord

end FieldOf

end CircuitIR
