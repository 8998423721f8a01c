import CircuitIR.Circuit.Basic
import CircuitIR.Gate.Decomposition
import CircuitIR.Operation.Remapping
import CircuitIR.Operation.Substitution

/-!
# Passes over circuits

Substitution, remapping and decomposition, operation by operation. The first failure ends the pass.
-/

namespace CircuitIR.Circuit

variable {R : Type}

def substitute (c : Circuit Float) (r : Resolver) : Traced (Circuit Float) := do
  return ⟨← c.operations.mapM fun op => op.substitute r⟩

def remap (c : Circuit R) (m : QubitMap) : Traced (Circuit R) := do
  return ⟨← c.operations.mapM fun op => op.remap m⟩

/-- What an operation is replaced by when its circuit is decomposed. -/
def expand [Scalar R] (op : Operation R) : Traced (List (Operation R)) :=
  if op.variant.isMultiQubitGate then op.decompose else pure [op]

/-- The circuit with every gate on many qubits replaced by its decomposition. -/
def decompose [Scalar R] (c : Circuit R) : Traced (Circuit R) := do
  let parts ← c.operations.mapM expand
  let operations := parts.flatten
  Traced.log .passes ("Decomposed circuit of " ++ toString c.length ++ " into "
    ++ toString operations.length ++ " operations")
  return ⟨operations⟩

end CircuitIR.Circuit
