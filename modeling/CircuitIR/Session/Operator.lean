import CircuitIR.Session.Method

/-!
# Operators

Equality, concatenation, length, texts, indexing and slicing of values.
-/

namespace CircuitIR

/-- A part of a sequence: from a start up to a stop, in steps. Bounds that are left out lie at the ends. -/
structure Slice where
  start : Option Int
  stop : Option Int
  step : Int

namespace Slice

/-- A bound as an index within `low` and `high`; negative bounds count from the end. -/
def clamp (length low high b : Int) : Int :=
  let b := if b < 0 then b + length else b
  if b < low then low else if high < b then high else b

/-- The indices from one on, in steps, as long as they are before another one. -/
def steps (step last : Int) : Nat → Int → List Nat
  | 0, _ => []
  | fuel + 1, i =>
    if (0 < step && i < last) || (step < 0 && last < i) then
      i.toNat :: steps step last fuel (i + step)
    else []

/-- The indices that a slice selects from a sequence of some length. -/
def indices (s : Slice) (length : Nat) : List Nat :=
  let n : Int := length
  if 0 < s.step then
    let first := (s.start.map (clamp n 0 n)).getD 0
    let last := (s.stop.map (clamp n 0 n)).getD n
    steps s.step last length first
  else
    let first := (s.start.map (clamp n (-1) (n - 1))).getD (n - 1)
    let last := (s.stop.map (clamp n (-1) (n - 1))).getD (-1)
    steps s.step last length first

def select {α : Type} (s : Slice) (xs : List α) : List α :=
  let a := xs.toArray
  (s.indices xs.length).filterMap fun i => a[i]?

/-- A bound of a slice, which may be left out. -/
def boundOfDatum : Datum → Except Fault (Option Int)
  | .null => .ok none
  | d => do return some (← d.toIndex)

def ofData (start stop step : Datum) : Except Fault Slice := do
  let step := (← boundOfDatum step).getD 1
  if step = 0 then throw (.foreign .wrongValue)
  let start ← boundOfDatum start
  let stop ← boundOfDatum stop
  return ⟨start, stop, step⟩

end Slice

namespace Datum

/-- The operations that can be added to a circuit: those of a circuit, or a single one. -/
def addends? : Datum → Option (List (Operation Float))
  | operation op => some [op]
  | circuit c => some c.contents.operations
  | _ => none

/-- Two values one after the other, or the sum of two numbers. -/
def add (a b : Datum) : Action Datum :=
  match a, b with
  | circuit c, d =>
    match d.addends? with
    | some ops => Action.circuitDatum ⟨c.contents.operations ++ ops⟩
    | none => Action.foreign .wrongType
  | list xs, list ys => pure (list (xs ++ ys))
  | tuple xs, tuple ys => pure (tuple (xs ++ ys))
  | text s, text t => pure (text (s ++ t))
  | real x, b => do return real (x + (← isLess.numeric b))
  | a, real y => do return real ((← isLess.numeric a) + y)
  | a, b => do return int ((← a.toIndex) + (← b.toIndex))

/-- Adds a value to the end of another one. A circuit changes; a list does not, its extension is a new one. -/
def addTo (a b : Datum) : Action Datum :=
  match a with
  | circuit c =>
    match b.addends? with
    | some ops => do return circuit (← Action.extendCircuit c ops)
    | none => Action.foreign .wrongType
  | list xs => do return list (xs ++ (← b.elements))
  | a => a.add b

def slice (d : Datum) (s : Slice) : Action Datum :=
  match d with
  | circuit c => Action.circuitDatum ⟨s.select c.contents.operations⟩
  | list ds => pure (list (s.select ds))
  | tuple ds => pure (tuple (s.select ds))
  | text t => pure (text (String.ofList (s.select t.toList)))
  | _ => Action.foreign .wrongType

/-- Slicing with the arguments of a slice. One argument is a stop, two are a start and a stop. -/
def sliceBy (d : Datum) (args : List Datum) : Action Datum := do
  match args with
  | [stop] => d.slice (← Slice.ofData null stop null)
  | [start, stop] => d.slice (← Slice.ofData start stop null)
  | [start, stop, step] => d.slice (← Slice.ofData start stop step)
  | _ => Action.foreign .wrongType

end Datum

open CircuitIR.Action

def Action.operator (name : String) (args : List Datum) : Action Datum :=
  match name with
  | "eq" => twoArguments args fun a b => return .bool (a.equal b)
  | "ne" => twoArguments args fun a b => return .bool (!a.equal b)
  | "add" => twoArguments args Datum.add
  | "iadd" => twoArguments args Datum.addTo
  | "len" => oneArgument args fun a => do return .int (← a.length)
  | "list" => oneArgument args fun a => do return .list (← a.elements)
  | "repr" => oneArgument args fun a => return .text a.written
  | "str" => oneArgument args fun a => do return .text (← a.display)
  | "getitem" => twoArguments args fun a i => do return ← a.item i
  | "slice" =>
    match args with
    | [] => foreign .wrongType
    | a :: bounds => a.sliceBy bounds
  | "hash_is_defined" => oneArgument args fun a => do
    Datum.checkKey a
    return .bool true
  | _ => foreign .noAttribute

end CircuitIR
