import CircuitIR.Operation.Basic

/-!
# Involved qubits

The qubits that an operation or a circuit acts on: all qubits whatever their number, none, or a
finite set. Finite sets are kept as strictly increasing lists.
-/

namespace CircuitIR

/-- The answer of an analysis of involved qubits. -/
inductive Involved where
  | all
  | none
  | finite (qubits : List Nat)
deriving DecidableEq, Repr, Inhabited

namespace Involved

/-- Inserts a qubit into a strictly increasing list. -/
def insert (q : Nat) : List Nat → List Nat
  | [] => [q]
  | r :: rs => if q < r then q :: r :: rs else if q = r then r :: rs else r :: insert q rs

def ofList (qs : List Nat) : List Nat := qs.foldr insert []

def isAll : Involved → Bool
  | all => true
  | _ => false

/-- The finite set; empty for the other answers. -/
def toList : Involved → List Nat
  | finite qs => qs
  | _ => []

end Involved

/-- The qubits that an operation acts on. -/
def OperationOf.involved {P : Type} (op : OperationOf Nat P) : Involved :=
  match op with
  | .globalPhase _ => .none
  | .setMeasurements _ _ => .none
  | .definition _ _ _ _ => .none
  | .repeatedMeasurement _ _ _ => .all
  | op => .finite (Involved.ofList op.qubits)

end CircuitIR
