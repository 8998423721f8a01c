import CircuitIR.Operation.Basic

/-!
# Fields of operations

Every kind of operation has a schema: the names and the kinds of its fields, in order. An operation
is the same as its kind with the contents of its fields, which `ofFields?_fields` states.
-/

namespace CircuitIR

inductive FieldKind where
  | qubit
  | qubits
  | parameter
  | parameters
  | text
  | count
  | flag
  | table
deriving DecidableEq, Repr

/-- The content of a field. -/
inductive FieldOf (I P : Type) where
  | qubit (q : I)
  | qubits (qs : List I)
  | parameter (p : P)
  | parameters (ps : List P)
  | text (s : String)
  | count (n : I)
  | flag (b : Bool)
  | table (t : Option ReadoutTable)

/-- The content of a field that is left out; `none` if the field must be given. -/
def FieldKind.default? {I P : Type} : FieldKind → Option (FieldOf I P)
  | parameters => some (.parameters [])
  | table => some (.table none)
  | _ => none

/-- The names and kinds of the fields of a kind of operation. -/
def Variant.schema : Variant → List (String × FieldKind)
  | fixed _ => [("qubit", .qubit)]
  | angle _ => [("qubit", .qubit), ("theta", .parameter)]
  | pair _ => [("control", .qubit), ("target", .qubit)]
  | controlledPhase => [("control", .qubit), ("target", .qubit), ("theta", .parameter)]
  | interaction _ => [("qubits", .qubits), ("theta", .parameter)]
  | multiControlledNot => [("qubits", .qubits)]
  | fourier => [("qubits", .qubits), ("swaps", .flag), ("inverse", .flag)]
  | call => [("gate_name", .text), ("qubits", .qubits), ("free_parameters", .parameters)]
  | globalPhase => [("phase", .parameter)]
  | setMeasurements => [("number_measurements", .count), ("readout", .text)]
  | repeatedMeasurement =>
    [("readout", .text), ("number_measurements", .count), ("qubit_mapping", .table)]
  | reset => [("qubit", .qubit)]
  | measure => [("qubit", .qubit), ("readout", .text), ("readout_index", .count)]
  | definition _ => [("name", .text), ("length", .count), ("is_output", .flag)]

namespace OperationOf

variable {I P : Type}

/-- The contents of the fields of an operation, in the order of its schema. -/
def fields : OperationOf I P → List (FieldOf I P)
  | fixed _ q => [.qubit q]
  | angle _ q θ => [.qubit q, .parameter θ]
  | pair _ c t => [.qubit c, .qubit t]
  | controlledPhase c t θ => [.qubit c, .qubit t, .parameter θ]
  | interaction _ qs θ => [.qubits qs, .parameter θ]
  | multiControlledNot qs => [.qubits qs]
  | fourier qs s i => [.qubits qs, .flag s, .flag i]
  | call n qs ps => [.text n, .qubits qs, .parameters ps]
  | globalPhase φ => [.parameter φ]
  | setMeasurements k r => [.count k, .text r]
  | repeatedMeasurement r k t => [.text r, .count k, .table t]
  | reset q => [.qubit q]
  | measure q r k => [.qubit q, .text r, .count k]
  | definition _ n k o => [.text n, .count k, .flag o]

/-- The operation of a kind with the given contents of its fields. -/
def ofFields? : Variant → List (FieldOf I P) → Option (OperationOf I P)
  | .fixed g, [.qubit q] => some (fixed g q)
  | .angle g, [.qubit q, .parameter θ] => some (angle g q θ)
  | .pair g, [.qubit c, .qubit t] => some (pair g c t)
  | .controlledPhase, [.qubit c, .qubit t, .parameter θ] => some (controlledPhase c t θ)
  | .interaction g, [.qubits qs, .parameter θ] => some (interaction g qs θ)
  | .multiControlledNot, [.qubits qs] => some (multiControlledNot qs)
  | .fourier, [.qubits qs, .flag s, .flag i] => some (fourier qs s i)
  | .call, [.text n, .qubits qs, .parameters ps] => some (call n qs ps)
  | .globalPhase, [.parameter φ] => some (globalPhase φ)
  | .setMeasurements, [.count k, .text r] => some (setMeasurements k r)
  | .repeatedMeasurement, [.text r, .count k, .table t] => some (repeatedMeasurement r k t)
  | .reset, [.qubit q] => some (reset q)
  | .measure, [.qubit q, .text r, .count k] => some (measure q r k)
  | .definition t, [.text n, .count k, .flag o] => some (definition t n k o)
  | _, _ => none

/-- An operation is determined by its kind and the contents of its fields. -/
theorem ofFields?_fields (op : OperationOf I P) : ofFields? op.variant op.fields = some op := by
  cases op <;> rfl

/-- An operation has as many fields as its schema. -/
theorem length_fields (op : OperationOf I P) :
    op.fields.length = op.variant.schema.length := by
  cases op <;> rfl

/-- The fields of an operation with their names. -/
def namedFields (op : OperationOf I P) : List (String × FieldOf I P) :=
  (op.variant.schema.map (·.1)).zip op.fields

end OperationOf

end CircuitIR
