import CircuitIR.Circuit.Basic
import CircuitIR.Fault

/-!
# Depth of circuits

The length of the longest chain of operations that follow each other on shared qubits. An operation on
all qubits follows everything before it; one on none does not count. An operation on an empty list of
qubits has no level of its own, and a circuit with one has no depth.
-/

namespace CircuitIR

/-- The length of the longest chain that ends on each qubit so far. Qubits that are not listed have the
level of the last operation on all qubits. -/
structure Levels where
  entries : List (Nat × Nat)
  barrier : Nat

namespace Levels

def start : Levels := ⟨[], 0⟩

def level (s : Levels) (q : Nat) : Nat := (s.entries.lookup q).getD s.barrier

def top (s : Levels) : Nat := (s.entries.map (·.2)).foldl max s.barrier

def setEntry (q d : Nat) : List (Nat × Nat) → List (Nat × Nat)
  | [] => [(q, d)]
  | e :: es => if e.1 = q then (q, d) :: es else e :: setEntry q d es

/-- The levels after an operation on a finite set of qubits. -/
def place (s : Levels) (qs : List Nat) : Levels :=
  let d := (qs.map s.level).foldl max 0 + 1
  ⟨qs.foldl (fun es q => setEntry q d es) s.entries, s.barrier⟩

/-- The levels after an operation on all qubits. -/
def raise (s : Levels) : Levels :=
  let d := s.top + 1
  ⟨s.entries.map fun e => (e.1, d), d⟩

def after (s : Levels) : Involved → Except Fault Levels
  | .none => .ok s
  | .all => .ok s.raise
  | .finite [] => .error (.foreign .wrongValue)
  | .finite qs => .ok (s.place qs)

end Levels

def Circuit.depth {R : Type} (c : Circuit R) : Except Fault Nat := do
  let s ← c.operations.foldlM (fun s op => s.after op.involved) Levels.start
  return s.top

end CircuitIR
