import CircuitIR.Datum.Conversion
import CircuitIR.Operation.Validation
import CircuitIR.Record.Encoding

/-!
# Construction and decoding

Operations are built from values for their fields: all values are converted in the order of the fields,
then the draft is validated. Decoding a record takes the values from the record.
-/

namespace CircuitIR

/-- The values for the fields of a schema, given in order and by name. Every value must belong to a field,
and every field without a default must have one value. -/
def bindFields (names : List String) (optional : String → Bool) (args : List Datum)
    (named : List (String × Datum)) : Except Fault (List (Option Datum)) := do
  if names.length < args.length then throw (.foreign .wrongType)
  let given := (names.zip args).map (·.1)
  if named.any fun e => given.contains e.1 || !names.contains e.1 then throw (.foreign .wrongType)
  let values := names.zipIdx.map fun (name, i) =>
    match args[i]? with
    | some d => (name, some d)
    | none => (name, named.lookup name)
  if values.any fun (name, d) => d.isNone && !optional name then throw (.foreign .wrongType)
  return values.map (·.2)

namespace Variant

/-- The content of a field from a value, or else its default. -/
def fieldContent (kind : FieldKind) : Option Datum → Traced (FieldOf Int (Parameter Float))
  | some d => d.toField kind
  | none =>
    match kind.default? with
    | some content => pure content
    | none => Traced.foreign .wrongType

/-- The operation of a kind with the given values for its fields. -/
def construct (v : Variant) (values : List (Option Datum)) : Traced (Operation Float) := do
  let contents ← ((v.schema.map (·.2)).zip values).mapM fun (kind, d) => fieldContent kind d
  match OperationOf.ofFields? v contents with
  | some draft => draft.validate
  | none => Traced.foreign .wrongType

/-- A field with a default value. -/
def isOptional (v : Variant) (name : String) : Bool :=
  v.schema.any fun (n, kind) => n == name && (kind == .parameters || kind == .table)

/-- The operation of a kind, from values in order and by name. -/
def make (v : Variant) (args : List Datum) (named : List (String × Datum)) :
    Traced (Operation Float) := do
  let values ← bindFields (v.schema.map (·.1)) v.isOptional args named
  v.construct values

/-- The operation of a kind that a record describes. A record may leave out its name. -/
def decode (v : Variant) (record : Datum) : Traced (Operation Float) := do
  match record with
  | .dict entries => do
    let name := (Datum.lookUpText entries Record.nameKey).getD (.text v.name)
    if !name.equal (.text v.name) then
      Traced.fail (.otherRecord (← name.display) v.name)
    let named := v.schema.filterMap fun (name, _) =>
      (Datum.lookUpText entries name).map fun d => (name, d)
    v.make [] named
  | _ => Traced.foreign .noAttribute

end Variant

/-- All names of kinds of operations as a list of texts, in increasing order. -/
def knownNames : String :=
  listText ((sortedTexts (Variant.all.map Variant.name)).map Quoted.encode)

namespace Record

def decodeOperation (record : Datum) : Traced (Operation Float) := do
  match record with
  | .dict entries =>
    match Datum.lookUpText entries nameKey with
    | none => Traced.fail (.unnamedRecord record.written)
    | some name => do
      Datum.checkKey name
      let known := match name with
        | .text s => Variant.ofName? s
        | _ => none
      match known with
      | some v => v.decode record
      | none => do
        let shown ← name.display
        Traced.log .records ("Unknown operation '" ++ shown ++ "', known: " ++ knownNames)
        Traced.fail (.unknownOperation shown)
  | _ => Traced.foreign .wrongType

def decodeCircuit (record : Datum) : Traced (Circuit Float) := do
  match record with
  | .dict entries =>
    match Datum.lookUpText entries operationsKey with
    | none => Traced.foreign .missingKey
    | some d => do
      let records ← d.elements
      return ⟨← records.mapM decodeOperation⟩
  | _ => Traced.foreign .wrongType

/-- The register that a record describes. Both parts may be left out. -/
def decodeRegister (record : Datum) : Traced (Register Float) := do
  match record with
  | .dict entries => do
    let constant ← match Datum.lookUpText entries constantKey with
      | none => pure none
      | some .null => pure none
      | some d => do pure (some (← decodeCircuit d))
    let records ← ((Datum.lookUpText entries circuitsKey).getD (.list [])).elements
    let circuits ← records.mapM decodeCircuit
    return ⟨constant, circuits⟩
  | _ => Traced.foreign .noAttribute

end Record

end CircuitIR
