import CircuitIR.Record.Decoding
import CircuitIR.Session.Store

/-!
# Construction of objects

Operations, circuits, registers and calculators from values, given in order and by name.
-/

namespace CircuitIR

def Datum.toOperation : Datum → Except Fault (Operation Float)
  | .operation op => .ok op
  | d => .error (.notAnOperation d.written d.typeText)

/-- The circuit of the operations that a value has as elements; nothing and what is empty make an empty
circuit. -/
def Circuit.ofDatum (d : Datum) : Except Fault (Circuit Float) := do
  if ← d.truthy then
    let ds ← d.elements
    return ⟨← ds.mapM Datum.toOperation⟩
  else return .empty

/-- The constant circuit that a value is. -/
def Register.constantOfDatum : Datum → Except Fault (Option (Circuit Float))
  | .null => .ok none
  | .circuit c => .ok (some c.contents)
  | d => .error (.notAConstantCircuit d.typeText)

/-- The measurement circuits that a value has as elements. -/
def Register.circuitsOfDatum (d : Datum) : Except Fault (List (Circuit Float)) := do
  let ds ← d.elements
  ds.mapM fun
    | .circuit c => .ok c.contents
    | d => .error (.notACircuit d.typeText)

/-- The register of some circuit objects. -/
def Register.ofObjects (constant : Option CircuitObject) (circuits : List CircuitObject) :
    Register Float :=
  ⟨constant.map (·.contents), circuits.map (·.contents)⟩

/-- A new object of a class, from values in order and by name. -/
def Action.construct (className : String) (args : List Datum) (named : List (String × Datum)) :
    Action Datum := do
  let allOptional (_ : String) : Bool := true
  match className with
  | "Circuit" => do
    match ← bindFields ["operations"] allOptional args named with
    | [d] => circuitDatum (← Circuit.ofDatum (d.getD .null))
    | _ => Action.foreign .wrongType
  | "ClassicalRegister" => do
    match ← bindFields ["constant_circuit", "circuits"] allOptional args named with
    | [k, cs] => do
      let constant ← Register.constantOfDatum (k.getD .null)
      let circuits ← Register.circuitsOfDatum (cs.getD (.tuple []))
      registerDatum ⟨constant, circuits⟩
    | _ => Action.foreign .wrongType
  | "Calculator" => do
    match ← bindFields ["variables"] allOptional args named with
    | [d] => calculatorDatum (← (d.getD (.dict [])).toDict)
    | _ => Action.foreign .wrongType
  | name =>
    match Variant.ofName? name with
    | some v => do return .operation (← v.make args named)
    | none => Action.foreign .noAttribute

end CircuitIR
