import CircuitIR.Datum.Equality
import CircuitIR.Log.Entry
import CircuitIR.Register.Basic

/-!
# Stores

The objects that can change: circuits, to which operations are added, and calculators, whose variables are
set. Every object has an identity; two names for one object see the same contents. The operations of a circuit
are a list, which is an object too: what is made from a circuit has a list of its own, unless it is a shallow
copy. An action is a traced computation over a store.
-/

namespace CircuitIR

/-- The contents of all objects by their identity. A circuit is known by the list of its operations. -/
structure Store where
  lists : Array (List (Operation Float))
  circuits : Array Nat
  calculators : Array (List (Datum × Datum))
  lt_size : ∀ l ∈ circuits, l < lists.size

namespace Store

def empty : Store := ⟨#[], #[], #[], fun _ h => nomatch h⟩

instance : Inhabited Store := ⟨empty⟩

/-- The list of a circuit. -/
def list? (s : Store) (id : Nat) : Option Nat := s.circuits[id]?

def operations (s : Store) (l : Nat) : List (Operation Float) := s.lists[l]?.getD []

def circuit (s : Store) (id : Nat) : Circuit Float := ⟨((s.list? id).map s.operations).getD []⟩

def calculator (s : Store) (id : Nat) : List (Datum × Datum) := s.calculators[id]?.getD []

/-- The store with a new circuit, which has a list of its own. -/
def pushCircuit (s : Store) (c : Circuit Float) : Store where
  lists := s.lists.push c.operations
  circuits := s.circuits.push s.lists.size
  calculators := s.calculators
  lt_size l hl := by
    rw [Array.size_push]
    obtain hl | rfl := Array.mem_push.1 hl
    · exact Nat.lt_succ_of_lt (s.lt_size l hl)
    · exact Nat.lt_succ_self _

/-- The store with a new circuit that shares the list of another one. -/
def shareList (s : Store) (id : Nat) (h : id < s.circuits.size) : Store where
  lists := s.lists
  circuits := s.circuits.push s.circuits[id]
  calculators := s.calculators
  lt_size l hl := by
    obtain hl | rfl := Array.mem_push.1 hl
    · exact s.lt_size l hl
    · exact s.lt_size _ (Array.getElem_mem h)

/-- The store with new contents for the list of a circuit. -/
def setOperations (s : Store) (id : Nat) (ops : List (Operation Float)) : Store :=
  match s.list? id with
  | some l =>
    { s with
      lists := s.lists.setIfInBounds l ops
      lt_size := fun l hl => by
        rw [Array.size_setIfInBounds]
        exact s.lt_size l hl }
  | none => s

/-- The store with another list for a circuit. -/
def replaceList (s : Store) (id : Nat) (ops : List (Operation Float)) : Store where
  lists := s.lists.push ops
  circuits := s.circuits.setIfInBounds id s.lists.size
  calculators := s.calculators
  lt_size l hl := by
    rw [Array.size_push]
    obtain hl | rfl := Array.mem_or_eq_of_mem_setIfInBounds hl
    · exact Nat.lt_succ_of_lt (s.lt_size l hl)
    · exact Nat.lt_succ_self _

def pushCalculator (s : Store) (entries : List (Datum × Datum)) : Store :=
  { s with calculators := s.calculators.push entries }

def setCalculator (s : Store) (id : Nat) (entries : List (Datum × Datum)) : Store :=
  { s with calculators := s.calculators.setIfInBounds id entries }

/-- A circuit as it is now. -/
def refreshCircuit (s : Store) (c : CircuitObject) : CircuitObject := ⟨c.id, s.circuit c.id⟩

mutual

/-- A value with the current contents of all objects in it. -/
def refresh (s : Store) : Datum → Datum
  | .list ds => .list (refreshAll s ds)
  | .tuple ds => .tuple (refreshAll s ds)
  | .dict es => .dict (refreshEntries s es)
  | .circuit c => .circuit (s.refreshCircuit c)
  | .register k cs => .register (k.map s.refreshCircuit) (cs.map s.refreshCircuit)
  | .calculator id _ => .calculator id (s.calculator id)
  | d => d

def refreshAll (s : Store) : List Datum → List Datum
  | [] => []
  | d :: ds => refresh s d :: refreshAll s ds

def refreshEntries (s : Store) : List (Datum × Datum) → List (Datum × Datum)
  | [] => []
  | (k, d) :: es => (refresh s k, refresh s d) :: refreshEntries s es

end

end Store

/-- A traced computation over a store. -/
abbrev Action := StateT Store Traced

namespace Action

def newCircuit (c : Circuit Float) : Action CircuitObject := do
  let s ← get
  set (s.pushCircuit c)
  return ⟨s.circuits.size, c⟩

/-- A new circuit object as a value. -/
def circuitDatum (c : Circuit Float) : Action Datum := do
  return .circuit (← newCircuit c)

/-- A new register with circuits of its own. -/
def registerDatum (r : Register Float) : Action Datum := do
  let constant ← r.constant.mapM newCircuit
  let circuits ← r.circuits.mapM newCircuit
  return .register constant circuits

def calculatorDatum (entries : List (Datum × Datum)) : Action Datum := do
  let s ← get
  set (s.pushCalculator entries)
  return .calculator s.calculators.size entries

/-- Adds operations to the end of a circuit and answers with the circuit. -/
def extendCircuit (c : CircuitObject) (ops : List (Operation Float)) : Action CircuitObject := do
  let s ← get
  let contents : Circuit Float := ⟨(s.circuit c.id).operations ++ ops⟩
  set (s.setOperations c.id contents.operations)
  return ⟨c.id, contents⟩

/-- Fails for a reason of the surroundings. -/
def foreign {α : Type} (k : FaultKind) : Action α := (Traced.foreign k : Traced α)

def fail {α : Type} (f : Fault) : Action α := (Traced.fail f : Traced α)

/-- A copy of a value that shares with it what it consists of. The copy of a circuit is another circuit with the
same list. -/
def shallowCopy : Datum → Action Datum
  | .circuit c => do
    let s ← get
    if h : c.id < s.circuits.size then
      set (s.shareList c.id h)
      return .circuit ⟨s.circuits.size, s.circuit c.id⟩
    else return .circuit c
  | d => pure d

mutual

/-- A copy of a value that shares no object with it. -/
def deepCopy : Datum → Action Datum
  | .list ds => do return .list (← deepCopyAll ds)
  | .tuple ds => do return .tuple (← deepCopyAll ds)
  | .dict es => do return .dict (← deepCopyEntries es)
  | .circuit c => circuitDatum c.contents
  | .register k cs => registerDatum ⟨k.map (·.contents), cs.map (·.contents)⟩
  | .calculator _ es => calculatorDatum es
  | d => pure d

def deepCopyAll : List Datum → Action (List Datum)
  | [] => pure []
  | d :: ds => do
    let d ← deepCopy d
    return d :: (← deepCopyAll ds)

def deepCopyEntries : List (Datum × Datum) → Action (List (Datum × Datum))
  | [] => pure []
  | (k, d) :: es => do
    let d ← deepCopy d
    return (k, d) :: (← deepCopyEntries es)

end

end Action

end CircuitIR
