import CircuitIR.Circuit.Depth

/-!
# Summaries of circuits

A line with the number of qubits, the number of operations of every kind, and the depth.
-/

namespace CircuitIR.Circuit

variable {R : Type}

/-- The number of qubits in words. -/
def qubitCountText (c : Circuit R) : String :=
  match c.involved with
  | .all => "all"
  | .none => "none"
  | .finite qs => toString qs.length

/-- The number of operations of every kind that occurs, by name. -/
def histogram (c : Circuit R) : List (String × Nat) :=
  c.operationTypes.map fun name => (name, c.operations.countP fun op => op.name == name)

def summary (c : Circuit R) : Except Fault String := do
  let counts := c.histogram.map fun (name, n) => name ++ ":" ++ toString n
  let depth ← c.depth
  return "<Circuit " ++ c.qubitCountText ++ " qubits, " ++ toString c.length ++ " operations ("
    ++ ", ".intercalate counts ++ "), depth=" ++ toString depth ++ ">"

end CircuitIR.Circuit
