import CircuitIR.Fault
import CircuitIR.Operation.Basic

/-!
# Validation of drafts

A draft is an operation if its qubit indices and counts are not negative and its own qubits are
pairwise different. Fields are checked in their order, uniqueness last.
-/

namespace CircuitIR

namespace OperationOf

variable {R : Type}

/-- A qubit index must not be negative. -/
def checkQubit (variant : Variant) (field : String) (n : Int) : Except Fault Nat :=
  if n < 0 then .error (.negativeQubit variant.name field n) else .ok n.toNat

/-- A count must not be negative. -/
def checkCount (_ : String) (n : Int) : Except Fault Nat :=
  if n < 0 then .error (.foreign .wrongValue) else .ok n.toNat

/-- The operation that a draft describes. -/
def validate (draft : Draft R) : Except Fault (Operation R) := do
  let op ← draft.traverseIndices (checkQubit draft.variant) checkCount
  if op.qubits.Nodup then return op
  else throw (.repeatedQubits op.name (op.qubits.map Int.ofNat))

end OperationOf

def validateAll {R : Type} (drafts : List (Draft R)) : Except Fault (List (Operation R)) :=
  drafts.mapM OperationOf.validate

end CircuitIR
