import CircuitIR.Datum.Basic
import CircuitIR.Operation.Fields
import CircuitIR.Register.Basic

/-!
# Records

The record of an operation is a table of its name and its fields. Circuits and registers have records
that hold the records of their operations.
-/

namespace CircuitIR

def Record.nameKey : String := "hqslang"

def Record.operationsKey : String := "operations"

def Record.constantKey : String := "constant_circuit"

def Record.circuitsKey : String := "circuits"

/-- A parameter in a record: a number, or the text of an expression. -/
def Parameter.record : Parameter Float → Datum
  | .number x => .real x
  | .symbolic e => .text e.text

def ReadoutTable.record (t : ReadoutTable) : Datum :=
  .dict (t.map fun (q, i) => (.int q, .int i))

def FieldOf.record : FieldOf Nat (Parameter Float) → Datum
  | .qubit q => .int q
  | .qubits qs => .list (Datum.ofNats qs)
  | .parameter p => p.record
  | .parameters ps => .list (ps.map Parameter.record)
  | .text s => .text s
  | .count n => .int n
  | .flag b => .bool b
  | .table none => .null
  | .table (some t) => t.record

def FieldOf.value : FieldOf Nat (Parameter Float) → Datum
  | .qubits qs => .tuple (Datum.ofNats qs)
  | .parameter p => Datum.ofParameter p
  | .parameters ps => .tuple (ps.map Datum.ofParameter)
  | field => field.record

def OperationOf.record (op : Operation Float) : Datum :=
  .dict ((.text Record.nameKey, .text op.name)
    :: op.namedFields.map fun (name, field) => (.text name, field.record))

def Circuit.record (c : Circuit Float) : Datum :=
  .dict [(.text Record.operationsKey, .list (c.operations.map OperationOf.record))]

def Register.record (r : Register Float) : Datum :=
  .dict
    [(.text Record.constantKey, (r.constant.map Circuit.record).getD .null),
      (.text Record.circuitsKey, .list (r.circuits.map Circuit.record))]

end CircuitIR
