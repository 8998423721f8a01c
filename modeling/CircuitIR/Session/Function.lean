import CircuitIR.Gate.Decomposition
import CircuitIR.Log.Numbering
import CircuitIR.Log.Setup
import CircuitIR.Session.Method

/-!
# Functions

The functions of the library over values.
-/

namespace CircuitIR

attribute [local instance (high)] instPowNat

open CircuitIR.Action

/-! ## Parameters -/

/-- The value still has free symbols. -/
def Datum.isSymbolic : Datum → Bool
  | expr e => !e.isClosed
  | relation _ symbols => !symbols.isEmpty
  | _ => false

/-- A parameter as a text, or as a number if it has no free symbols. -/
def Datum.serialize (d : Datum) : Except Fault Datum := do
  if d.isSymbolic then return text d.written
  else return real (← d.toFloat)

/-- The value as a resolver object; a table becomes a new calculator. -/
def asResolver (d : Datum) : Action Datum :=
  match d with
  | .dict es => calculatorDatum es
  | d => do
    let _ ← d.toResolver
    return d

/-! ## Controlled gates -/

/-- Builds a gate from qubits that may fail to be qubits. -/
def buildGate (gate : OperationOf (Except Fault Int) (Parameter Float)) :
    Except Fault (Operation Float) := do
  let draft ← gate.traverseIndices (fun _ q => q) (fun _ n => n)
  draft.validate

def buildGates (gates : List (OperationOf (Except Fault Int) (Parameter Float))) :
    Except Fault (List (Operation Float)) :=
  gates.mapM buildGate

/-- Builds the gates of a bit flip, from the gates of the phases with the same controls. -/
def buildFlipBy
    (phase : Except Fault Int → Parameter Float → Except Fault (List (Operation Float)))
    (controls : List (Except Fault Int)) (t : Except Fault Int) :
    Except Fault (List (Operation Float)) :=
  match controls with
  | [] => buildGates [.fixed .pauliX t]
  | [c] => buildGates [.pair .cnot c t]
  | [d, c] => buildGates (Controlled.toffoli c d t)
  | _ => do
    let hadamard ← buildGate (.fixed .hadamard t)
    let gates ← phase t (.number Scalar.pi)
    return hadamard :: gates ++ [hadamard]

/-- Builds the gates of a phase. The inner bit flip, which occurs twice, is built once and first, so that
the fault is that of the first gate which cannot be built. -/
def buildPhase : List (Except Fault Int) → Except Fault Int → Parameter Float →
    Except Fault (List (Operation Float))
  | [], t, φ => buildGates [.angle .phaseShift t φ]
  | [c], t, φ => buildGates [.controlledPhase c t φ]
  | x :: controls, t, φ => do
    let flip ← buildFlipBy (buildPhase controls) controls x
    let first ← buildGate (.controlledPhase x t φ.half)
    let second ← buildGate (.controlledPhase x t φ.half.neg)
    let rest ← buildPhase controls t φ.half
    return first :: flip ++ second :: flip ++ rest

/-- Builds the gates of a bit flip of the last of some qubits, controlled by all others. -/
def controlledFlipOf (qubits : List (Except Fault Int)) :
    Except Fault (List (Operation Float)) :=
  match qubits.reverse with
  | [] => throw (.foreign .outOfRange)
  | t :: controls => buildFlipBy (buildPhase controls) controls t

def Datum.half : Datum → Except Fault Datum
  | bool b => .ok (real (if b then 0.5 else 0))
  | int n =>
    let x := (Binary.scaled n (-1)).toFloat
    if x.isFinite then .ok (real x) else foreign (.arithmetic .overflow)
  | real x => .ok (real (x / 2))
  | complex re im => .ok (complex (re / 2) (im / 2))
  | expr e => .ok (expr (Rules.standard.scale (1 / 2) e))
  | _ => foreign .wrongType

/-- A phase on the state in which all qubits are one. -/
def controlledPhaseOf (qubits : List Datum) (phase : Datum) : Traced (List (Operation Float)) := do
  match qubits.reverse with
  | [] => Traced.foreign .outOfRange
  | [t] => do return [← Variant.make (.angle .phaseShift) [t, phase] []]
  | [t, c] => do return [← Variant.controlledPhase.make [c, t, phase] []]
  | t :: x :: controls => do
    let inner := controls.map Datum.toQubit
    let flip ← buildFlipBy (buildPhase inner) inner x.toQubit
    let half ← phase.half
    let first ← Variant.controlledPhase.make [x, t, half] []
    match first with
    | .controlledPhase _ _ p => do
      let second ← buildGate (.controlledPhase x.toQubit t.toQubit p.neg)
      let rest ← buildPhase inner t.toQubit p
      return first :: flip ++ second :: flip ++ rest
    | _ => Traced.foreign .wrongType

/-! ## Matrices -/

def Datum.toReal (d : Datum) : Except Fault Float := isLess.numeric d

/-- The whole number that a position is. -/
def Datum.toPosition : Datum → Except Fault Int
  | real x =>
    match Binary.ofFloat? x with
    | some b => if b.isInteger then .ok b.truncate else foreign .wrongValue
    | none => foreign .wrongValue
  | d => d.toIndex

/-- The values are pairwise different. -/
def Datum.areDistinct : List Datum → Bool
  | [] => true
  | d :: ds => !member ds d && areDistinct ds

/-- The written form of the size of a matrix; without rows there is no second extent. -/
def shapeText {α : Type} (m : DenseMatrix α) : String :=
  tupleText (if m.rows = 0 then ["0"] else [toString m.rows, toString m.cols])

/-- Lifts a matrix by positions to a number of qubits. -/
def embedDatum (matrix positions size : Datum) : Except Fault Datum := do
  let ds ← positions.elements
  match matrix with
  | .matrix m => do
    let k := ds.length
    if m.rows ≠ 2 ^ k ∨ m.cols ≠ 2 ^ k then
      throw (.wrongShape k (shapeText m))
    ds.forM Datum.checkKey
    let outside (d : Datum) : Except Fault Bool := do
      let x ← d.toReal
      if x < 0 then return true
      else return !(x < (← size.toReal))
    let invalid ← if Datum.areDistinct ds then ds.anyM outside else pure true
    if invalid then throw (.invalidPositions (Datum.written (.list ds)) (← size.display))
    let n ← size.toIndex
    if n < 0 then throw (.foreign .wrongType)
    let ps ← ds.mapM Datum.toPosition
    return .matrix (← m.embed ps n.toNat)
  | _ => Datum.foreign .noAttribute

/-- The bit reversal permutation of numbers with some number of bits. -/
def reversalDatum (size : Datum) : Except Fault Datum :=
  if size.equal (.int 0) then .ok (.list [.int 0])
  else
    match size with
    | .int n =>
      if n < 0 then Datum.foreign .wrongType
      else .ok (.list (Datum.ofNats (Bits.reversalPermutation n.toNat)))
    | .bool _ => Datum.foreign .wrongValue
    | _ => Datum.foreign .wrongType

/-! ## Passes -/

def unitaryDatum : Datum → Except Fault Datum
  | .circuit c => do return .matrix (← c.contents.unitary none)
  | .operation op => do return .matrix (← op.unitary)
  | _ => Datum.foreign .noAttribute

def decomposeDatum : Datum → Action Datum
  | .operation op => do circuitDatum ⟨← op.decompose⟩
  | _ => foreign .noAttribute

/-- The decomposition of all operations that a value has as elements. -/
def decomposeAll (d : Datum) : Action Datum :=
  match d with
  | .circuit c => do circuitDatum (← c.contents.decompose)
  | d => do
    let ds ← d.elements
    let parts ← (ds.mapM fun
      | .operation op => Circuit.expand op
      | d => Traced.fail (.notAnOperation d.written d.typeText) : Traced _)
    let operations := parts.flatten
    Traced.log .passes ("Decomposed circuit of " ++ toString ds.length ++ " into "
      ++ toString operations.length ++ " operations")
    circuitDatum ⟨operations⟩

/-! ## Logging -/

/-- What a logger is, as a table. -/
def LoggerInfo.entries (l : LoggerInfo) : List (Datum × Datum) :=
  [(.text "name", .text l.name), (.text "level", .int l.level), (.text "propagate", .bool l.propagate)]

/-- What a handler is, as a table. -/
def LogHandler.toDatum (h : LogHandler) : Datum :=
  let (type, path, format) := match h with
    | .file p => ("FileHandler", Datum.text (Logging.lastComponent p), Logging.entryFormat)
    | .console => ("StreamHandler", Datum.null, Logging.entryFormat)
    | .discard => ("NullHandler", Datum.null, "")
  .dict
    [(.text "type", .text type), (.text "level", .int h.level), (.text "file", path),
      (.text "format", if h.isWriting then .text format else .null)]

/-- The text of a variable of an environment. -/
def environmentText (env : Datum) (name : String) : Option String :=
  match env with
  | .dict es =>
    match Datum.lookUpText es name with
    | some (.text s) => some s
    | _ => none
  | _ => none

/-- The root logger with its handlers. -/
def setupDatum (file env : Datum) : Except Fault Datum := do
  let file ← match file with
    | .null => pure none
    | .text s => pure (some s)
    | d => do
      if ← d.truthy then Datum.foreign .wrongType
      else pure (some "")
  let environment : Logging.Environment :=
    ⟨environmentText env "QIRK_LOG_FILE", environmentText env "LOG_TO_CONSOLE"⟩
  let handlers := Logging.handlers file environment
  return .dict (Logging.rootLogger.entries ++
    [(.text "handlers", .list (handlers.map LogHandler.toDatum)), (.text "again_same", .bool true)])

def loggerDatum (args : List Datum) : Except Fault Datum :=
  match args with
  | [] => .ok (.dict Logging.rootLogger.entries)
  | [.text s] => .ok (.dict (Logging.logger s).entries)
  | [_] => Datum.foreign .noAttribute
  | _ => Datum.foreign .wrongType

/-! ## Dispatch -/

/-- A function that decodes records of a class. -/
def decodeAs (className : String) (record : Datum) : Action Datum :=
  match className with
  | "Circuit" => do circuitDatum (← Record.decodeCircuit record)
  | "ClassicalRegister" => do registerDatum (← Record.decodeRegister record)
  | name =>
    match Variant.ofName? name with
    | some v => do return .operation (← v.decode record)
    | none => foreign .noAttribute

/-- Calls a function on values. -/
def Action.function (name : String) (args : List Datum) : Action Datum :=
  match name with
  | "to_symbolic" => oneArgument args fun d => do return .ofParameter (← d.toParameter)
  | "is_symbolic" => oneArgument args fun d => return .bool d.isSymbolic
  | "serialize_symbolic" => oneArgument args fun d => do return ← d.serialize
  | "substitute_symbolic" => twoArguments args fun d r => do
    let r ← r.toResolver
    return .real (← substituteDatum d r)
  | "as_resolver" => oneArgument args asResolver
  | "operation_from_dict" => oneArgument args fun record => do
    return .operation (← Record.decodeOperation record)
  | "passes.substitute_parameters" => twoArguments args fun d r =>
    d.invoke "substitute_parameters" [r]
  | "passes.remap_qubits" => twoArguments args fun d m => d.invoke "remap_qubits" [m]
  | "passes.involved_qubits" => oneArgument args fun d => d.invoke "involved_qubits" []
  | "passes.unitary_matrix" => oneArgument args fun d => do return ← unitaryDatum d
  | "passes.decompose" => oneArgument args decomposeDatum
  | "passes.decompose_circuit" => oneArgument args decomposeAll
  | "remap_index" => twoArguments args fun d m => do return ← m.remapItem d
  | "remap_indices" => twoArguments args fun d m => do
    let ds ← d.elements
    return .tuple (← m.remapItems ds)
  | "check_mapping_total" => twoArguments args fun d m => do
    let ds ← d.elements
    m.checkTotal ds
    return .null
  | "bit_reversal_permutation" => oneArgument args fun n => do return ← reversalDatum n
  | "embed_unitary" =>
    match args with
    | [m, ps, n] => do return ← embedDatum m ps n
    | _ => foreign .wrongType
  | "multi_controlled_x" => oneArgument args fun d => do
    let ds ← d.elements
    let gates ← controlledFlipOf (ds.map Datum.toQubit)
    return .list (gates.map Datum.operation)
  | "multi_controlled_phase" => twoArguments args fun d phase => do
    let ds ← d.elements
    let gates ← controlledPhaseOf ds phase
    return .list (gates.map Datum.operation)
  | "copy" => oneArgument args shallowCopy
  | "deepcopy" => oneArgument args deepCopy
  | "log.get_logger" => do return ← loggerDatum args
  | "log.setup" => twoArguments args fun file env => do return ← setupDatum file env
  | "log.reset_call_order" => noArguments args (return .null)
  | name =>
    match name.splitOn "." with
    | [className, "from_dict"] => oneArgument args (decodeAs className)
    | _ => foreign .noAttribute

end CircuitIR
