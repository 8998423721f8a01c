import CircuitIR.Datum.Equality
import CircuitIR.Datum.Text
import CircuitIR.Decimal.Reading
import CircuitIR.Operation.Remapping
import CircuitIR.Operation.Substitution

/-!
# Conversions of data

What a value is as a whole number, a double, a qubit, a parameter, a readout table, a map of qubits or a
resolver, and the causes for which it is none.
-/

namespace CircuitIR

def floatOfInt (n : Int) : Except Fault Float :=
  let x := (Binary.ofInt n).toFloat
  if x.isFinite then .ok x else .error (.foreign (.arithmetic .overflow))

/-- A double without its fraction. -/
def intOfFloat (x : Float) : Except Fault Int :=
  match Binary.ofFloat? x with
  | some b => .ok b.truncate
  | none => .error (.foreign (if x.isNaN then .wrongValue else .arithmetic .overflow))

/-- The double that a closed expression denotes, if it is real. -/
def Expr.real? (e : Expr) : Option Float :=
  if e.isClosed then
    match e.evaluate with
    | .real x => some x
    | _ => none
  else none

/-- The parameter that an expression is: closed expressions are numbers. -/
def Expr.toParameter (e : Expr) : Except Fault (Parameter Float) :=
  if e.isClosed then
    match e.evaluate with
    | .real x => .ok (.number x)
    | .unreal => .error (.unrealParameter e.text)
    | .indefinite => .error (.foreign .wrongType)
  else .ok (.symbolic e)

def Parameter.read (s : String) : Traced (Parameter Float) :=
  match Formula.read s with
  | .ok e => e.toParameter
  | .error e => do
    match e with
    | .unreadable _ => Traced.logForeign .parameters
    | _ => pure ()
    Traced.fail (.unreadableParameter e)

namespace Datum

/-- The value as a whole number. Fractions are cut off. -/
def toInt : Datum → Except Fault Int
  | bool b => .ok (if b then 1 else 0)
  | int n => .ok n
  | real x => intOfFloat x
  | text s =>
    match NumberReader.readInt? s with
    | some n => .ok n
    | none => foreign .wrongValue
  | expr e =>
    match e.real? with
    | some x => if x.isFinite then intOfFloat x else foreign .wrongType
    | none => foreign .wrongType
  | _ => foreign .wrongType

def toFloat : Datum → Except Fault Float
  | bool b => .ok (if b then 1 else 0)
  | int n => floatOfInt n
  | real x => .ok x
  | text s =>
    match NumberReader.readFloat? s with
    | some x => .ok x
    | none => foreign .wrongValue
  | expr e =>
    match e.real? with
    | some x => .ok x
    | none => foreign .wrongType
  | _ => foreign .wrongType

/-- The value as a whole number without any conversion. -/
def toIndex : Datum → Except Fault Int
  | bool b => .ok (if b then 1 else 0)
  | int n => .ok n
  | _ => foreign .wrongType

def toQubit : Datum → Except Fault Int
  | bool b => .error (.boolAsQubit b)
  | d => d.toIndex

def toQubits : Datum → Except Fault (List Int)
  | text s => .error (.textAsQubits (Quoted.encode s))
  | d => do
    let ds ← d.elements
    ds.mapM toQubit

def toParameter : Datum → Traced (Parameter Float)
  | bool b => Traced.fail (.boolAsParameter b)
  | text s => Parameter.read s
  | truth b => Traced.fail (.logicAsParameter (boolText b))
  | relation s _ => Traced.fail (.logicAsParameter s)
  | expr e => e.toParameter
  | real x => pure (.number x)
  | int n => do return .number (← floatOfInt n)
  | d => Traced.fail (.notAParameter d.written)

def toParameters : Datum → Traced (List (Parameter Float))
  | text s => Traced.fail (.textAsParameters (Quoted.encode s))
  | d => do
    let ds ← d.elements
    ds.mapM toParameter

def toTable : Datum → Except Fault (Option ReadoutTable)
  | null => .ok none
  | dict es => do
    let entries ← es.mapM fun (k, v) => do
      let q ← k.toInt
      let i ← v.toInt
      return (q, i)
    return some (ReadoutTable.ofList entries)
  | _ => foreign .noAttribute

def toField (kind : FieldKind) (d : Datum) : Traced (FieldOf Int (Parameter Float)) :=
  match kind with
  | .qubit => do return .qubit (← d.toQubit)
  | .qubits => do return .qubits (← d.toQubits)
  | .parameter => do return .parameter (← d.toParameter)
  | .parameters => do return .parameters (← d.toParameters)
  | .text => do return .text (← d.display)
  | .count => do return .count (← d.toInt)
  | .flag => do return .flag (← d.truthy)
  | .table => do return .table (← d.toTable)

/-! ## Tables -/

/-- An entry of a table from a pair of values. -/
def toEntry (d : Datum) : Except Fault (Datum × Datum) := do
  match ← d.elements with
  | [k, v] => do
    checkKey k
    return (k, v)
  | _ => foreign .wrongValue

/-- The value as a table: a table itself or a sequence of pairs. -/
def toDict : Datum → Except Fault (List (Datum × Datum))
  | dict es => .ok es
  | d => do
    let ds ← d.elements
    let entries ← ds.mapM toEntry
    return ofEntries entries

/-! ## Maps of qubits -/

/-- The element at an index; negative indices count from the end. -/
def elementAt {α : Type} (xs : List α) (i : Int) : Except Fault α :=
  let i := if i < 0 then i + xs.length else i
  if i < 0 then foreign .outOfRange
  else
    match xs[i.toNat]? with
    | some x => .ok x
    | none => foreign .outOfRange

def containsItem (container d : Datum) : Except Fault Bool :=
  match container with
  | dict es => do
    checkKey d
    return (lookUp es d).isSome
  | set _ ds => do
    checkKey d
    return member ds d
  | text s =>
    match d with
    | text t => .ok (t.isEmpty || 1 < (s.splitOn t).length)
    | _ => foreign .wrongType
  | container => do
    let ds ← container.elements
    return member ds d

def item (container d : Datum) : Except Fault Datum :=
  match container with
  | dict es => do
    checkKey d
    match lookUp es d with
    | some v => return v
    | none => foreign .missingKey
  | list ds => do elementAt ds (← d.toIndex)
  | tuple ds => do elementAt ds (← d.toIndex)
  | text s => do
    let c ← elementAt s.toList (← d.toIndex)
    return text (String.singleton c)
  | circuit c => do
    let op ← elementAt c.contents.operations (← d.toIndex)
    return operation op
  | _ => foreign .wrongType

def toTarget (d : Datum) : QubitTarget := ⟨d.toQubit, d.toInt⟩

def toLabel : Datum → QubitLabel
  | int n => .index n
  | bool b => .flag b
  | real x => .number x
  | text s => .text s
  | null => .nothing
  | tuple ds => .group (ds.attach.map fun ⟨d, _⟩ => d.toLabel) (tuple ds).written
  | d => .other d.written

def toQubitMap (d : Datum) : QubitMap where
  covers q := d.containsItem (int q)
  target q :=
    match d.item (int q) with
    | .ok v => .ok v.toTarget
    | .error (.foreign .missingKey) => .error (.unmappedQubit (.index q))
    | .error e => .error e
  targetOrSelf q :=
    match d with
    | dict es => .ok ((lookUp es (int q)).getD (int q)).toTarget
    | _ => foreign .noAttribute
  text := do return written (dict (← d.toDict))

def remapItem (mapping d : Datum) : Except Fault Datum :=
  match mapping.item d with
  | .error (.foreign .missingKey) => .error (.unmappedQubit d.toLabel)
  | r => r

def remapItems (mapping : Datum) (ds : List Datum) : Except Fault (List Datum) :=
  ds.mapM mapping.remapItem

/-- One value is smaller than another; only numbers, and texts, have an order. -/
def isLess (a b : Datum) : Except Fault Bool :=
  match a, b with
  | text s, text t => .ok (s < t)
  | real x, b => do return x < (← numeric b)
  | a, real y => do return (← numeric a) < y
  | a, b => do return (← a.toIndex) < (← b.toIndex)
where
  numeric : Datum → Except Fault Float
    | real x => .ok x
    | d => do floatOfInt (← d.toIndex)

/-- Inserts a value into a sorted list, after all that are not larger. -/
def insertSorted (d : Datum) : List Datum → Except Fault (List Datum)
  | [] => .ok [d]
  | e :: es => do
    if ← isLess d e then return d :: e :: es
    else return e :: (← insertSorted d es)

/-- The values in increasing order; equal ones keep their order. -/
def sorted (ds : List Datum) : Except Fault (List Datum) :=
  ds.foldlM (fun sorted d => insertSorted d sorted) []

/-- Fails with the smallest value that a map does not cover. -/
def checkTotal (mapping : Datum) (ds : List Datum) : Traced Unit := do
  let missing ← ds.filterM fun d => do return !(← mapping.containsItem d)
  match ← sorted missing with
  | [] => return ()
  | d :: rest => do
    let table ← mapping.toDict
    Traced.log .indices
      ("Mapping " ++ written (dict table) ++ " misses qubits " ++ written (list (d :: rest)))
    Traced.fail (.unmappedQubit d.toLabel)

/-! ## Resolvers -/

/-- The answer of a resolver that holds a value for a name. -/
def toResolution (missing : Resolution) : Option Datum → Resolution
  | none => missing
  | some d =>
    match d.toFloat with
    | .ok x => .value x
    | .error _ => .failed

/-- The value as a resolver: a table, a calculator, or a foreign resolver. -/
def toResolver : Datum → Except Fault Resolver
  | dict es => .ok fun name => toResolution .unresolved (lookUpText es name)
  | calculator _ es => .ok fun name => toResolution .unresolved (lookUpText es name)
  | resolver values => .ok fun name => toResolution .failed (values.lookup name)
  | d => .error (.notAResolver d.written)

end Datum

end CircuitIR
