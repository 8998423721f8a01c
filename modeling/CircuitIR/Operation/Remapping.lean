import CircuitIR.Log.Entry
import CircuitIR.Operation.Involved
import CircuitIR.Operation.Validation

/-!
# Remapping

Sends the qubits of an operation through a map of qubits. The map must cover every involved qubit,
and the images must again make an operation; otherwise the fault names the smallest uncovered qubit
or the first bad image. An operation on all qubits keeps its qubits, except for the entries of its
readout table that the map covers.
-/

namespace CircuitIR

/-- What a map sends a qubit to: as a qubit and as an entry of a readout table. -/
structure QubitTarget where
  asQubit : Except Fault Int
  asEntry : Except Fault Int

def QubitTarget.ofInt (n : Int) : QubitTarget := ⟨.ok n, .ok n⟩

/-- A map of qubits. Anything that is used as one may fail to answer a question. -/
structure QubitMap where
  covers : Int → Except Fault Bool
  target : Int → Except Fault QubitTarget
  /-- The target with the qubit itself as default. -/
  targetOrSelf : Int → Except Fault QubitTarget
  /-- The written form of the map as a table. -/
  text : Except Fault String

namespace QubitMap

def lookUp (entries : List (Int × Int)) (q : Int) : Option Int :=
  (entries.find? fun e => e.1 == q).map (·.2)

def entriesText (entries : List (Int × Int)) : String :=
  "\x7b" ++ ", ".intercalate (entries.map fun e => toString e.1 ++ ": " ++ toString e.2) ++ "\x7d"

def ofList (entries : List (Int × Int)) : QubitMap where
  covers q := .ok (lookUp entries q).isSome
  target q :=
    match lookUp entries q with
    | some r => .ok (.ofInt r)
    | none => .error (.unmappedQubit (.index q))
  targetOrSelf q := .ok (.ofInt ((lookUp entries q).getD q))
  text := .ok (entriesText entries)

end QubitMap

/-- The members of a sorted list that a map does not cover. -/
def QubitMap.missing (m : QubitMap) (qs : List Int) : Except Fault (List Int) :=
  qs.filterM fun q => do return !(← m.covers q)

/-- Fails with the smallest member that a map does not cover. -/
def QubitMap.checkTotal (m : QubitMap) (qs : List Int) : Traced Unit := do
  match ← m.missing qs with
  | [] => return ()
  | q :: rest => do
    let text ← m.text
    Traced.log .indices
      ("Mapping " ++ text ++ " misses qubits " ++ Fault.intList (q :: rest))
    Traced.fail (.unmappedQubit (.index q))

namespace ReadoutTable

/-- Sets the value of a key; a key that is there keeps its place. -/
def set (key value : Int) : ReadoutTable → ReadoutTable
  | [] => [(key, value)]
  | (k, v) :: t => if k = key then (k, value) :: t else (k, v) :: set key value t

/-- The table with the given entries; of equal keys the first place and the last value count. -/
def ofList (entries : List (Int × Int)) : ReadoutTable :=
  entries.foldl (fun t e => set e.1 e.2 t) []

def remap (t : ReadoutTable) (m : QubitMap) : Except Fault ReadoutTable := do
  let targets ← t.mapM fun (q, i) => do return ((← m.targetOrSelf q), i)
  let entries ← targets.mapM fun (target, i) => do return ((← target.asEntry), i)
  return ofList entries

end ReadoutTable

namespace OperationOf

variable {R : Type}

/-- The first image that is negative or occurs twice, or else the first image. -/
def offendingTarget (targets : List Int) : Int :=
  (targets.find? fun t => t < 0 || 1 < targets.count t).getD (targets.headD 0)

/-- The operation with its qubits sent through a map that covers them. All qubits are looked up before
any image is read. -/
def remapCovered (op : Operation R) (m : QubitMap) (involved : List Int) :
    Except Fault (Operation R) := do
  let looked ← op.toDraft.traverseIndices (fun _ q => m.target q) (fun _ n => .ok (.ofInt n))
  let draft ← looked.traverseIndices (fun _ t => t.asQubit) (fun _ t => t.asQubit)
  match draft.validate with
  | .ok op => return op
  | .error e =>
    match e.kind with
    | .initialization => do
      let targets ← involved.mapM fun q => do
        let target ← m.target q
        target.asQubit
      throw (.invalidTarget op.name (offendingTarget targets) e.message)
    | _ => throw e

def remap (op : Operation R) (m : QubitMap) : Traced (Operation R) :=
  match op.involved with
  | .finite qs => do
    let qs := qs.map Int.ofNat
    m.checkTotal qs
    op.remapCovered m qs
  | _ =>
    match op with
    | .repeatedMeasurement r k (some t) => do
      let t' ← t.remap m
      return .repeatedMeasurement r k (some t')
    | op => pure op

end OperationOf

end CircuitIR
