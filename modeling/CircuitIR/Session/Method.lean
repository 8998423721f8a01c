import CircuitIR.Circuit.Unitary
import CircuitIR.Session.Construction

/-!
# Methods and attributes

What can be asked of an operation, a circuit, a register, a calculator or a foreign resolver. Asking for
what an object lacks is a fault of its own, whatever the arguments are.
-/

namespace CircuitIR

namespace Action

variable {α : Type}

def noArguments (args : List Datum) (act : Action α) : Action α :=
  match args with
  | [] => act
  | _ => foreign .wrongType

def oneArgument (args : List Datum) (act : Datum → Action α) : Action α :=
  match args with
  | [d] => act d
  | _ => foreign .wrongType

def twoArguments (args : List Datum) (act : Datum → Datum → Action α) : Action α :=
  match args with
  | [d, e] => act d e
  | _ => foreign .wrongType

end Action

open CircuitIR.Action

/-- The frame of the qubits that a value has as elements. -/
def Frame.ofDatum (d : Datum) : Except Fault Frame := do
  let ds ← d.elements
  ds.forM Datum.checkKey
  return {
    size := ds.length
    position? := fun q => (ds.zipIdx.reverse.find? fun e => e.1.equal (.int q)).map (·.2)
    text := Datum.written (.list ds) }

/-- The texts among some tags, all of which must be possible keys. -/
def tagsOfDatum (d : Datum) : Except Fault (List String) := do
  let ds ← d.elements
  ds.forM Datum.checkKey
  return ds.filterMap fun
    | .text s => some s
    | _ => none

def OperationOf.invoke (op : Operation Float) (method : String) (args : List Datum) :
    Action Datum :=
  match method with
  | "remap_qubits" => oneArgument args fun m => do return .operation (← op.remap m.toQubitMap)
  | "substitute_parameters" => oneArgument args fun r => do
    let r ← r.toResolver
    return .operation (← op.substitute r)
  | "involved_qubits" => noArguments args do return .ofInvolved op.involved
  | "is_parametrized" => noArguments args do return .bool op.isParametrized
  | "to_dict" => noArguments args do return op.record
  | "from_dict" => oneArgument args fun record => do
    return .operation (← op.variant.decode record)
  | "unitary_matrix" =>
    if op.variant.isGate then noArguments args do return .matrix (← op.unitary)
    else foreign .noAttribute
  | "circuit" =>
    if op.variant.isMultiQubitGate then noArguments args do
      circuitDatum ⟨← op.decompose⟩
    else foreign .noAttribute
  | _ => foreign .noAttribute

def CircuitObject.invoke (object : CircuitObject) (method : String) (args : List Datum) :
    Action Datum :=
  let c := object.contents
  match method with
  | "add" => oneArgument args fun d => do
    let op ← d.toOperation
    let _ ← extendCircuit object [op]
    return .null
  | "remap_qubits" => oneArgument args fun m => do circuitDatum (← c.remap m.toQubitMap)
  | "substitute_parameters" => oneArgument args fun r => do
    let r ← r.toResolver
    circuitDatum (← c.substitute r)
  | "involved_qubits" => noArguments args do return .ofInvolved c.involved
  | "is_parametrized" => noArguments args do return .bool c.isParametrized
  | "depth" => noArguments args do return .int (← c.depth)
  | "count_occurences" => oneArgument args fun tags => do
    return .int (c.count (← tagsOfDatum tags))
  | "get_operation_types" => noArguments args do
    return .set false (c.operationTypes.map Datum.text)
  | "to_dict" => noArguments args do return c.record
  | "from_dict" => oneArgument args fun record => do
    circuitDatum (← Record.decodeCircuit record)
  | "unitary_matrix" =>
    match args with
    | [] => do return .matrix (← c.unitary none)
    | [.null] => do return .matrix (← c.unitary none)
    | [d] => do
      let frame ← Frame.ofDatum d
      return .matrix (← c.unitary (some frame))
    | _ => foreign .wrongType
  | _ => foreign .noAttribute

def Register.invoke (r : Register Float) (method : String) (args : List Datum) : Action Datum :=
  match method with
  | "substitute_parameters" => oneArgument args fun d => do
    let resolver ← d.toResolver
    registerDatum (← r.substitute resolver)
  | "to_dict" => noArguments args do return r.record
  | "from_dict" => oneArgument args fun record => do
    registerDatum (← Record.decodeRegister record)
  | _ => foreign .noAttribute

/-- The value of a parameter or of any number under a resolver. -/
def substituteDatum (d : Datum) (r : Resolver) : Traced Float :=
  match d with
  | .expr e => if e.isClosed then d.toFloat else (Parameter.symbolic e).substitute r
  | .relation text symbols => do
    let _ ← r.resolveSymbols text symbols
    Traced.foreign .wrongType
  | d => d.toFloat

/-- Calls a method of a calculator with the given identity. -/
def invokeCalculator (id : Nat) (entries : List (Datum × Datum)) (method : String)
    (args : List Datum) : Action Datum :=
  match method with
  | "set_variable" => twoArguments args fun name d => do
    let x ← d.toFloat
    Datum.checkKey name
    modify fun s => s.setCalculator id (Datum.setEntry name (.real x) entries)
    return .null
  | "resolve" => oneArgument args fun name => do
    Datum.checkKey name
    match Datum.lookUp entries name with
    | some d => return d
    | none => fail (.unresolvedSymbol (← name.display) none)
  | "evaluate" => oneArgument args fun d => do
    let p ← d.toParameter
    let r ← (Datum.calculator id entries).toResolver
    return .real (← p.substitute r)
  | _ => foreign .noAttribute

def Datum.invoke (receiver : Datum) (method : String) (args : List Datum) : Action Datum :=
  match receiver with
  | operation op => op.invoke method args
  | circuit c => c.invoke method args
  | register k cs => (Register.ofObjects k cs).invoke method args
  | calculator id entries => invokeCalculator id entries method args
  | resolver values =>
    match method with
    | "resolve" => oneArgument args fun name => do
      match name with
      | text s =>
        match values.lookup s with
        | some d => return d
        | none => foreign .missingKey
      | _ => foreign .missingKey
    | _ => foreign .noAttribute
  | _ => foreign .noAttribute

/-- Reads an attribute. A list or a table is read as it is now: what is added later to the object, or to what was
read, does not show in the other. -/
def Datum.attribute (d : Datum) (name : String) : Except Fault Datum :=
  match d with
  | operation op =>
    match name with
    | "hqslang" => .ok (.text op.name)
    | "tags" => .ok (.tuple (op.variant.tags.map Datum.text))
    | name =>
      match op.namedFields.lookup name with
      | some field => .ok field.value
      | none => foreign .noAttribute
  | circuit c =>
    match name with
    | "operations" => .ok (.list (c.contents.operations.map operation))
    | _ => foreign .noAttribute
  | register k cs =>
    match name with
    | "constant_circuit" => .ok ((k.map circuit).getD .null)
    | "circuits" => .ok (.tuple (cs.map circuit))
    | _ => foreign .noAttribute
  | calculator _ entries =>
    match name with
    | "variables" => .ok (.dict entries)
    | _ => foreign .noAttribute
  | _ => foreign .noAttribute

/-- Assigns an attribute. Operations and registers cannot change. What is assigned is copied: it is not shared
with the object. -/
def Datum.assign (receiver : Datum) (name : String) (d : Datum) : Action Datum :=
  match receiver with
  | operation _ => Action.foreign .immutable
  | register _ _ => Action.foreign .immutable
  | circuit c => do
    if name == "operations" then
      let contents ← Circuit.ofDatum d
      modify fun s => s.replaceList c.id contents.operations
    return .null
  | calculator id _ => do
    if name == "variables" then
      let entries ← d.toDict
      modify fun s => s.setCalculator id entries
      return .null
    else Action.foreign .noAttribute
  | _ => Action.foreign .noAttribute

end CircuitIR
